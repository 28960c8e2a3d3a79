import KrxAlpha.Gapfill
import Mathlib.Algebra.BigOperators.Ring.Finset
import Mathlib.Data.List.Nodup

/-! The books of the gap-fill step. The ids of the remaining intervals line up with
the audited intervals of the residual document, and the rows written for any set of
ids number what the outcomes of these ids claim as recovered. -/
namespace KrxAlpha
open List hiding span

section

variable (change : Nat → AuditInterval → AuditInterval) (id : Nat)
include change id

theorem change_intervals_audited (intervals : List AuditInterval) :
    (changeIntervals change id intervals).filter (·.Audited) =
      (((intervals.filter (·.Audited)).zipIdx id).map fun (interval, id) => change id interval).filter
        (·.Audited) := by
  induction intervals generalizing id with
  | nil => rfl
  | cons interval rest ih =>
    by_cases audited : interval.Audited
    · simp [changeIntervals, audited, filter_cons, ih]
    · simp [changeIntervals, audited, ih]

/-- Changing audited intervals in place keeps their order; those the change takes out of
the audit drop out of the list. -/
theorem audit_intervals_changed (ledgers : List AuditEntry) :
    auditIntervals (changeAudited change id ledgers) =
      (((auditIntervals ledgers).zipIdx id).map fun ((symbol, interval), id) =>
        (symbol, change id interval)).filter (·.2.Audited) := by
  induction ledgers generalizing id with
  | nil => rfl
  | cons ledger rest ih =>
    have later := ih (id + (ledger.intervals.filter (·.Audited)).length)
    simp only [auditIntervals] at later
    simp only [auditIntervals, changeAudited, flatMap_cons, zipIdx_append, later,
      change_intervals_audited]
    simp [zipIdx_map, filter_map, Function.comp_def]

end

section Indexed

variable (ledgers : List AuditEntry)

theorem indexed_changed (change : Nat → AuditInterval → AuditInterval) :
    auditIntervals (changeAudited change 0 ledgers) =
      ((indexedAuditIntervals ledgers).map fun item =>
        (item.symbol, change item.id item.interval)).filter (·.2.Audited) := by
  rw [audit_intervals_changed]
  simp [indexedAuditIntervals, Function.comp_def]

theorem indexed_ids :
    (indexedAuditIntervals ledgers).map (·.id) = range (auditIntervals ledgers).length := by
  simp only [indexedAuditIntervals, map_map]
  exact zipIdx_map_snd 0 _ |>.trans (range_eq_range').symm

theorem indexed_nodup : ((indexedAuditIntervals ledgers).map (·.id)).Nodup := by
  rw [indexed_ids]
  exact nodup_range

variable {ledgers}

theorem indexed_audited (listed : item ∈ indexedAuditIntervals ledgers) :
    item.interval.Audited := by
  obtain ⟨⟨⟨symbol, interval⟩, id⟩, position, rfl⟩ := mem_map.mp listed
  have member : (symbol, interval) ∈ auditIntervals ledgers :=
    (mem_zipIdx position).2.2 ▸ getElem_mem _
  obtain ⟨ledger, -, inside⟩ := mem_flatMap.mp member
  obtain ⟨found, kept, same⟩ := mem_map.mp inside
  cases same
  simpa using (mem_filter.mp kept).2

end Indexed

/-- The trades the peers give an interval. -/
def crossCount (peers : List Peer) (item : AuditItem) : Nat :=
  ((pickTrades peers item).trades?.getD []).length

/-- The rows the peers give an interval. -/
def AuditItem.rowsFrom (peers : List Peer) (item : AuditItem) : List FillRow :=
  ((pickTrades peers item).trades?.getD []).map (crossRow item)

section CrossFill

variable {peers : List Peer}

theorem conflated_length (found : conflatedTrades peers symbol lo hi missing = some trades) :
    (trades.length : Int) = missing := by
  obtain ⟨peer, -, matched⟩ := exists_of_findSome?_eq_some found
  simp only at matched
  split at matched
  · rename_i exact
    cases matched
    simpa using exact.1
  · cases matched

/-- The peers never give an interval more trades than it misses. -/
theorem picked_le_missing (filled : (pickTrades peers item).trades? = some trades) :
    (trades.length : Int) ≤ item.interval.missingTrades := by
  unfold pickTrades at filled
  split at filled
  · simp only at filled
    split at filled
    · cases filled
    · split at filled
      · split at filled
        · rename_i found
          cases filled
          exact (conflated_length found).le
        · cases filled
      · split at filled
        · cases filled
        · rename_i fits
          cases filled
          exact Int.not_lt.mp (not_or.mp fits).2
  · cases filled

theorem cross_count_le (audited : item.interval.Audited) :
    (crossCount peers item : Int) ≤ item.interval.missingTrades := by
  unfold crossCount
  cases filled : (pickTrades peers item).trades? with
  | none => exact audited.1.le
  | some trades => exact picked_le_missing filled

/-- What the loop books for the items it picked trades for, read back by id. -/
theorem picked_get? (distinct : (items.map (·.id)).Nodup)
    (value : List (PeerTrade × String) → ν) (listed : item ∈ items) :
    (Dict.ofList ((crossPicked peers items).map fun (item, trades) => (item.id, value trades))).get?
      item.id = (pickTrades peers item).trades?.map value := by
  have shape : (crossPicked peers items).map (fun (item, trades) => (item.id, value trades)) =
      items.filterMap fun item => ((pickTrades peers item).trades?.map value).map (item.id, ·) := by
    simp [crossPicked, map_filterMap, Function.comp_def]
  rw [shape]
  exact Dict.get?_ofList_filterMap (fun item => (pickTrades peers item).trades?.map value) distinct
    listed

variable {audit : AuditDocument}

theorem cross_recovered (listed : item ∈ indexedAuditIntervals audit.symbols) :
    ((deriveCrossVendorFill audit peers).recovered.get? item.id).getD 0 = crossCount peers item := by
  rw [deriveCrossVendorFill, picked_get? (indexed_nodup _) length listed]
  unfold crossCount
  cases (pickTrades peers item).trades? <;> rfl

/-- The interval as the peers left it. -/
def AuditItem.residual (peers : List Peer) (item : AuditItem) : AuditItem :=
  { item with
    interval := match (pickTrades peers item).trades? with
      | some trades => item.interval.lessRecovered trades.length (trades.map (·.1.qty)).sum
      | none => item.interval }

theorem residual_missing (item : AuditItem) :
    (item.residual peers).interval.missingTrades =
      item.interval.missingTrades - crossCount peers item := by
  unfold AuditItem.residual crossCount
  cases filled : (pickTrades peers item).trades? with
  | none => simp
  | some trades =>
    have := picked_le_missing filled
    simp only [AuditInterval.lessRecovered, Option.getD_some]
    omega

theorem residual_audited (audited : item.interval.Audited) :
    (item.residual peers).interval.Audited ↔
      (crossCount peers item : Int) < item.interval.missingTrades := by
  have times : (item.residual peers).interval.chetimePrev = item.interval.chetimePrev ∧
      (item.residual peers).interval.chetimeNext = item.interval.chetimeNext := by
    unfold AuditItem.residual
    cases (pickTrades peers item).trades? <;> exact ⟨rfl, rfl⟩
  rw [AuditInterval.Audited, times.1, times.2, residual_missing]
  simp [audited.2.1, audited.2.2]

theorem residual_changed :
    auditIntervals (deriveCrossVendorFill audit peers).residual.symbols =
      ((indexedAuditIntervals audit.symbols).map fun item =>
        (item.symbol, (item.residual peers).interval)).filter (·.2.Audited) := by
  refine (indexed_changed audit.symbols _).trans ?_
  congr 1
  refine map_congr_left fun item listed => ?_
  rw [picked_get? (indexed_nodup _) length listed,
    picked_get? (indexed_nodup _) (fun trades => (trades.map (·.1.qty)).sum) listed]
  unfold AuditItem.residual
  cases (pickTrades peers item).trades? <;> rfl

/-- The audited intervals of the residual document are the original ones the peers did
not fill whole, in the original order. -/
theorem residual_intervals :
    auditIntervals (deriveCrossVendorFill audit peers).residual.symbols =
      ((indexedAuditIntervals audit.symbols).filter fun item =>
        (crossCount peers item : Int) < item.interval.missingTrades).map fun item =>
          (item.symbol, (item.residual peers).interval) := by
  rw [residual_changed, filter_map]
  congr 1
  refine filter_congr fun item listed => ?_
  simpa using residual_audited (indexed_audited listed)

end CrossFill

/-! The tape's part, cluster by cluster. -/

theorem join_open_members (taken : joinOpen item clusters = some joined) :
    (joined.flatMap (·.members)).Perm (item :: clusters.flatMap (·.members)) ∧
      ((∀ cluster ∈ clusters, ∀ member ∈ cluster.members, member.symbol = cluster.symbol) →
        ∀ cluster ∈ joined, ∀ member ∈ cluster.members, member.symbol = cluster.symbol) := by
  induction clusters generalizing joined with
  | nil => cases taken
  | cons cluster older ih =>
    simp only [joinOpen] at taken
    split at taken
    · rename_i same
      split at taken
      · cases taken
        refine ⟨?_, fun uniform => ?_⟩
        · simp only [flatMap_cons, append_assoc, singleton_append]
          exact perm_middle
        · simp only [forall_mem_cons, forall_mem_append] at uniform ⊢
          exact ⟨⟨uniform.1, same.symm, by simp⟩, uniform.2⟩
      · cases taken
    · obtain ⟨rest, found, rfl⟩ := Option.map_eq_some_iff.mp taken
      obtain ⟨members, symbols⟩ := ih found
      refine ⟨?_, fun uniform => ?_⟩
      · exact (members.append_left cluster.members).trans perm_middle
      · obtain ⟨first, others⟩ := forall_mem_cons.mp uniform
        exact forall_mem_cons.mpr ⟨first, symbols others⟩

structure Clustered (items : List AuditItem) (clusters : List Cluster) : Prop where
  members : (clusters.flatMap (·.members)).Perm items
  symbols : ∀ cluster ∈ clusters, ∀ member ∈ cluster.members, member.symbol = cluster.symbol

theorem place_item_clustered
    (clustered : Clustered items clusters) : Clustered (items ++ [item]) (placeItem clusters item) := by
  have last : (item :: items).Perm (items ++ [item]) := (perm_append_singleton item items).symm
  unfold placeItem
  cases taken : joinOpen item clusters with
  | none => exact ⟨(clustered.members.cons item).trans last, by simpa using clustered.symbols⟩
  | some joined =>
    obtain ⟨members, symbols⟩ := join_open_members taken
    exact ⟨(members.trans (clustered.members.cons item)).trans last, symbols clustered.symbols⟩

/-- Clusters divide the items up. -/
theorem clusters_clustered (items : List AuditItem) : Clustered items (clustersOf items) := by
  have run : ∀ (rest : List AuditItem) (seen : List AuditItem) (clusters : List Cluster),
      Clustered seen clusters → Clustered (seen ++ rest) (rest.foldl placeItem clusters) := by
    intro rest
    induction rest with
    | nil => simp
    | cons item rest ih =>
      intro seen clusters clustered
      simpa using ih _ _ (place_item_clustered clustered)
  have clustered := run (items.insertionSort AuditItem.Before) [] [] ⟨.refl _, by simp⟩
  refine ⟨?_, by simpa [clustersOf] using clustered.symbols⟩
  exact ((reverse_perm _).flatMap_right _).trans
    (clustered.members.trans (perm_insertionSort _ _))

/-- The trades an outcome takes from the tape. -/
def GapfillInterval.fromTape (outcome : GapfillInterval) : Int :=
  outcome.recovered - outcome.recoveredXvendor

/-- The outcome is the item's, with no more taken from the tape than it misses. -/
def GapfillInterval.Of (outcome : GapfillInterval) (prior : Dict Nat Nat) (item : AuditItem) : Prop :=
  ∃ surplus last taken, 0 ≤ taken ∧ taken ≤ item.interval.missingTrades ∧
    outcome = memberOutcome item.symbol surplus last item ((prior.get? item.id).getD 0) taken

section Outcomes

variable {prior : Dict Nat Nat} {items : List AuditItem} {symbol : String} {surplus : Int}

theorem cluster_outcomes_ids (remaining : Int) :
    (clusterOutcomes symbol surplus prior remaining items).map (·.intervalId) = items.map (·.id) := by
  induction items generalizing remaining with
  | nil => rfl
  | cons item rest ih => simp [clusterOutcomes, memberOutcome, ih]

theorem cluster_outcomes_of (prior : Dict Nat Nat) (surplus : Int)
    (enough : 0 ≤ remaining) (missing : ∀ item ∈ items, 0 ≤ item.interval.missingTrades)
    (symbols : ∀ item ∈ items, item.symbol = symbol) :
    ∀ outcome ∈ clusterOutcomes symbol surplus prior remaining items,
      ∃ item ∈ items, outcome.Of prior item := by
  induction items generalizing remaining with
  | nil => simp [clusterOutcomes]
  | cons item rest ih =>
    obtain ⟨here, later⟩ := forall_mem_cons.mp missing
    obtain ⟨same, others⟩ := forall_mem_cons.mp symbols
    rw [clusterOutcomes, forall_mem_cons]
    refine ⟨⟨item, by simp, surplus, rest.isEmpty, _, le_min here enough, min_le_left _ _,
      by rw [same]⟩, ?_⟩
    intro outcome listed
    obtain ⟨source, member, settled⟩ := ih (by omega) later others outcome listed
    exact ⟨source, mem_cons_of_mem _ member, settled⟩

/-- The members together take no more than the pool holds. -/
theorem cluster_outcomes_taken (remaining : Int) (enough : 0 ≤ remaining) :
    ((clusterOutcomes symbol surplus prior remaining items).map (·.fromTape)).sum ≤ remaining := by
  induction items generalizing remaining with
  | nil => simpa [clusterOutcomes] using enough
  | cons item rest ih =>
    have later := ih (remaining - min item.interval.missingTrades remaining) (by omega)
    have here (last : Bool) (earlier : Nat) (taken : Int) :
        (memberOutcome symbol surplus last item earlier taken).fromTape = taken := by
      simp [GapfillInterval.fromTape, memberOutcome]
    simp only [clusterOutcomes, map_cons, sum_cons, here]
    omega

theorem from_tape_nonneg {outcome : GapfillInterval} (settled : outcome.Of prior item) :
    0 ≤ outcome.fromTape := by
  obtain ⟨_, _, taken, nonneg, -, rfl⟩ := settled
  simpa [GapfillInterval.fromTape, memberOutcome] using nonneg

end Outcomes

/-- Rows that all carry one id. -/
theorem count_labelled (row : α → FillRow) {id : Nat}
    (labelled : ∀ source, (row source).intervalId = id) (keep : Nat → Bool) (sources : List α) :
    (sources.map row).countP (keep ·.intervalId) = if keep id then sources.length else 0 := by
  cases kept : keep id <;> simp [Function.comp_def, labelled, kept]

variable {outcomes : List GapfillInterval}

/-- The rows of any set of ids number what their outcomes take from the pool. -/
theorem cluster_rows_count (source : GapfillSource) (keep : Nat → Bool) (pool : List (Int × TapeRow))
    (nonneg : ∀ outcome ∈ outcomes, 0 ≤ outcome.fromTape)
    (enough : (outcomes.map (·.fromTape)).sum ≤ pool.length) :
    ((clusterRows source pool outcomes).countP (keep ·.intervalId) : Int) =
      ((outcomes.filter (keep ·.intervalId)).map (·.fromTape)).sum := by
  induction outcomes generalizing pool with
  | nil => rfl
  | cons outcome rest ih =>
    obtain ⟨here, others⟩ := forall_mem_cons.mp nonneg
    have more : 0 ≤ (rest.map (·.fromTape)).sum :=
      sum_nonneg (by simpa using others)
    rw [map_cons, sum_cons] at enough
    have later := ih (pool.drop outcome.fromTape.toNat) others
      (by rw [length_drop]; omega)
    have first := count_labelled (tapeRow source outcome) (fun _ => rfl) keep
    have shape : clusterRows source pool (outcome :: rest) =
        (pool.take outcome.fromTape.toNat).map (tapeRow source outcome) ++
          clusterRows source (pool.drop outcome.fromTape.toNat) rest := rfl
    rw [shape, countP_append, Int.natCast_add, first, later]
    cases kept : keep outcome.intervalId with
    | false => simp [kept]
    | true =>
      simp only [kept, ↓reduceIte, filter_cons, map_cons, sum_cons, length_take]
      omega

theorem cluster_rows_nil (source : GapfillSource) (outcomes : List GapfillInterval) :
    clusterRows source [] outcomes = [] := by
  induction outcomes with
  | nil => rfl
  | cons outcome rest ih => simpa [clusterRows] using ih

/-- The tape's rows and outcomes for a list of items. -/
structure Filled (prior : Dict Nat Nat) (items : List AuditItem) (rows : List FillRow)
    (outcomes : List GapfillInterval) : Prop where
  ids : (outcomes.map (·.intervalId)).Perm (items.map (·.id))
  settled : ∀ outcome ∈ outcomes, ∃ item ∈ items, outcome.Of prior item
  counted : ∀ keep : Nat → Bool, (rows.countP (keep ·.intervalId) : Int) =
    ((outcomes.filter (keep ·.intervalId)).map (·.fromTape)).sum

namespace Filled

variable {prior : Dict Nat Nat} {items more : List AuditItem} {rows others : List FillRow}
  {outcomes further : List GapfillInterval}

theorem append (first : Filled prior items rows outcomes) (second : Filled prior more others further) :
    Filled prior (items ++ more) (rows ++ others) (outcomes ++ further) where
  ids := by simpa using first.ids.append second.ids
  settled := forall_mem_append.mpr
    ⟨fun outcome early => (first.settled outcome early).imp fun _ => .imp_left (mem_append_left _),
      fun outcome late => (second.settled outcome late).imp fun _ => .imp_left (mem_append_right _)⟩
  counted keep := by
    simp [first.counted keep, second.counted keep]

theorem perm (filled : Filled prior items rows outcomes) (sameItems : items.Perm more)
    (sameRows : rows.Perm others) (sameOutcomes : outcomes.Perm further) :
    Filled prior more others further where
  ids := ((sameOutcomes.map _).symm.trans filled.ids).trans (sameItems.map _)
  settled := by
    intro outcome listed
    obtain ⟨item, member, settled⟩ := filled.settled outcome (sameOutcomes.mem_iff.mpr listed)
    exact ⟨item, sameItems.mem_iff.mp member, settled⟩
  counted keep := by
    rw [← sameRows.countP_eq, filled.counted keep, ((sameOutcomes.filter _).map _).sum_eq]

end Filled

theorem fill_cluster_filled (sources : List GapfillSource) (received : Option Received)
    (prior : Dict Nat Nat) (missing : ∀ item ∈ cluster.members, 0 ≤ item.interval.missingTrades)
    (symbols : ∀ item ∈ cluster.members, item.symbol = cluster.symbol) :
    Filled prior cluster.members (fillCluster sources received prior cluster).1
      (fillCluster sources received prior cluster).2 := by
  have filled (source : GapfillSource) (pool : List (Int × TapeRow)) (surplus : Int) :
      Filled prior cluster.members
        (clusterRows source pool
          (clusterOutcomes cluster.symbol surplus prior pool.length cluster.members))
        (clusterOutcomes cluster.symbol surplus prior pool.length cluster.members) := by
    have settled := cluster_outcomes_of prior surplus (Int.natCast_nonneg pool.length) missing symbols
    refine ⟨.of_eq (cluster_outcomes_ids _), settled, fun keep => ?_⟩
    refine cluster_rows_count source keep pool (fun outcome listed => ?_)
      (cluster_outcomes_taken _ (Int.natCast_nonneg _))
    obtain ⟨item, -, of⟩ := settled outcome listed
    exact from_tape_nonneg of
  unfold fillCluster
  cases choosePool sources received cluster with
  | none =>
    -- The members share an empty pool, whichever source it is said to come from.
    have empty := filled ⟨"", "", []⟩ []
    simp only [cluster_rows_nil] at empty
    exact empty _
  | some chosen => exact filled chosen.1 _ _

/-- With its own ids accepted, the tape's part fills every item of the document. -/
theorem derive_gapfill_filled (pinned : pinnedItems (auditIntervals audit.symbols) ids = .ok items)
    (missing : ∀ item ∈ items, 0 ≤ item.interval.missingTrades) :
    ∃ rows outcomes, deriveGapfill audit sources received ids prior = .ok (rows, outcomes) ∧
      Filled prior items rows outcomes := by
  have clustered := clusters_clustered items
  have every : ∀ clusters : List Cluster, (∀ cluster ∈ clusters, cluster ∈ clustersOf items) →
      Filled prior (clusters.flatMap (·.members))
        ((clusters.map (fillCluster sources received prior)).flatMap Prod.fst)
        ((clusters.map (fillCluster sources received prior)).flatMap Prod.snd) := by
    intro clusters
    induction clusters with
    | nil => exact fun _ => ⟨.refl _, by simp, by simp⟩
    | cons cluster rest ih =>
      intro listed
      obtain ⟨here, later⟩ := forall_mem_cons.mp listed
      have whole : ∀ item ∈ cluster.members, item ∈ items := fun item member =>
        clustered.members.mem_iff.mp (mem_flatMap.mpr ⟨cluster, here, member⟩)
      have here := fill_cluster_filled sources received prior
        (fun item member => missing item (whole item member)) (clustered.symbols cluster here)
      exact here.append (ih later)
  refine ⟨_, _, by rw [deriveGapfill, pinned]; rfl, ?_⟩
  exact (every _ fun _ => id).perm clustered.members (perm_insertionSort _ _).symm
    (perm_insertionSort _ _).symm

section Job

variable (audit : AuditDocument) (peers : List Peer)

/-- The intervals the peers leave to the tape. -/
def openItems : List AuditItem :=
  (indexedAuditIntervals audit.symbols).filter fun item =>
    (crossCount peers item : Int) < item.interval.missingTrades

/-- The intervals the peers fill whole. -/
def wholeItems : List AuditItem :=
  (indexedAuditIntervals audit.symbols).filter fun item =>
    (crossCount peers item : Int) = item.interval.missingTrades

theorem open_or_whole :
    (openItems audit peers ++ wholeItems audit peers).Perm (indexedAuditIntervals audit.symbols) := by
  have whole : wholeItems audit peers = (indexedAuditIntervals audit.symbols).filter fun item =>
      !decide ((crossCount peers item : Int) < item.interval.missingTrades) := by
    refine filter_congr fun item listed => ?_
    have fits : (crossCount peers item : Int) ≤ item.interval.missingTrades :=
      cross_count_le (indexed_audited listed)
    rw [← decide_not, decide_eq_decide]
    omega
  rw [whole]
  exact filter_append_perm _ _

/-- The ids the job pins fit the audited intervals of the residual document. -/
theorem open_items_pinned :
    pinnedItems (auditIntervals (deriveCrossVendorFill audit peers).residual.symbols)
      (some ((openItems audit peers).map (·.id))) =
        .ok ((openItems audit peers).map (·.residual peers)) := by
  have distinct : ((openItems audit peers).map (·.id)).Nodup :=
    (indexed_nodup audit.symbols).sublist (filter_sublist.map _)
  rw [residual_intervals]
  change pinnedItems ((openItems audit peers).map _) _ = _
  simp [pinnedItems, distinct, AuditItem.residual]

theorem cross_rows_perm : (deriveCrossVendorFill audit peers).rows.Perm
    ((indexedAuditIntervals audit.symbols).flatMap (·.rowsFrom peers)) := by
  refine (perm_insertionSort _ _).trans (.of_eq ?_)
  rw [crossPicked]
  generalize indexedAuditIntervals audit.symbols = items
  induction items with
  | nil => rfl
  | cons item rest ih =>
    cases filled : (pickTrades peers item).trades? with
    | none => simpa [AuditItem.rowsFrom, filled] using ih
    | some trades => simpa [AuditItem.rowsFrom, filled] using ih

theorem cross_rows_count (keep : Nat → Bool) :
    (deriveCrossVendorFill audit peers).rows.countP (keep ·.intervalId) =
      (((indexedAuditIntervals audit.symbols).filter (keep ·.id)).map (crossCount peers)).sum := by
  rw [(cross_rows_perm audit peers).countP_eq, countP_eq_length_filter,
    filter_flatMap_whole (q := (keep ·.id)), length_flatMap]
  · exact congrArg _ (map_congr_left fun item _ => length_map _)
  · intro item _ row member
    obtain ⟨pick, -, rfl⟩ := mem_map.mp member
    rfl

/-- The outcomes of the intervals the peers filled whole. -/
def completedOutcomes : List GapfillInterval :=
  (wholeItems audit peers).map fun item => completedOutcome item (crossCount peers item)

/-- The step never rejects its own ids; it writes the tape's rows and outcomes beside
those of the peers. -/
theorem gapfill_step_filled (tape : List TapeTrade) (received : Received) :
    ∃ rows outcomes, Filled (deriveCrossVendorFill audit peers).recovered
        ((openItems audit peers).map (·.residual peers)) rows outcomes ∧
      gapfillStep audit peers tape received = .ok ((deriveCrossVendorFill audit peers).report rows
        outcomes (completedOutcomes audit peers)) := by
  have remaining : ∀ item ∈ (openItems audit peers).map (·.residual peers),
      0 ≤ item.interval.missingTrades := by
    intro item listed
    obtain ⟨source, inside, rfl⟩ := mem_map.mp listed
    have left : (crossCount peers source : Int) < source.interval.missingTrades := by
      simpa using (mem_filter.mp inside).2
    rw [residual_missing]
    omega
  obtain ⟨rows, outcomes, derived, filled⟩ := derive_gapfill_filled
    (open_items_pinned audit peers) remaining
  have kept (test : Nat → AuditItem → Bool) :
      (indexedAuditIntervals audit.symbols).filter (fun item =>
        test (((deriveCrossVendorFill audit peers).recovered.get? item.id).getD 0) item) =
      (indexedAuditIntervals audit.symbols).filter fun item => test (crossCount peers item) item :=
    filter_congr fun item listed => by rw [cross_recovered listed]
  have opened := kept fun count item => (count : Int) < item.interval.missingTrades
  have completed : ((indexedAuditIntervals audit.symbols).filter (fun item =>
      ((((deriveCrossVendorFill audit peers).recovered.get? item.id).getD 0 : Nat) : Int) =
        item.interval.missingTrades)).map (fun item => completedOutcome item
          (((deriveCrossVendorFill audit peers).recovered.get? item.id).getD 0)) =
      completedOutcomes audit peers := by
    rw [kept fun count item => (count : Int) = item.interval.missingTrades]
    refine map_congr_left fun item listed => ?_
    rw [cross_recovered (mem_of_mem_filter listed)]
  refine ⟨rows, outcomes, filled, ?_⟩
  simp only [gapfillStep, opened, completed]
  change (deriveGapfill _ _ _ (some ((openItems audit peers).map (·.id))) _ >>= _) = _
  rw [derived]
  rfl

variable {audit peers} {rows : List FillRow} {outcomes : List GapfillInterval}

section Settled

variable (filled : Filled (deriveCrossVendorFill audit peers).recovered
  ((openItems audit peers).map (·.residual peers)) rows outcomes)

include filled

theorem settled_ids :
    ((outcomes ++ completedOutcomes audit peers).map (·.intervalId)).Perm
      ((indexedAuditIntervals audit.symbols).map (·.id)) := by
  have opened : ((openItems audit peers).map (·.residual peers)).map (·.id) =
      (openItems audit peers).map (·.id) := by
    simp [AuditItem.residual]
  have whole : (completedOutcomes audit peers).map (·.intervalId) =
      (wholeItems audit peers).map (·.id) := by
    simp [completedOutcomes, completedOutcome]
  have divided := (open_or_whole audit peers).map (·.id)
  rw [map_append] at divided ⊢
  rw [whole]
  exact ((opened ▸ filled.ids).append_right _).trans divided

theorem settled_xvendor : ∀ outcome ∈ outcomes ++ completedOutcomes audit peers,
    outcome.recoveredXvendor =
      ((deriveCrossVendorFill audit peers).recovered.get? outcome.intervalId).getD 0 := by
  refine forall_mem_append.mpr ⟨fun outcome tape => ?_, forall_mem_map.mpr fun item member => ?_⟩
  · obtain ⟨item, -, _, _, _, -, -, rfl⟩ := filled.settled outcome tape
    rfl
  · exact congrArg _ (cross_recovered (mem_of_mem_filter member)).symm

variable (keep : Nat → Bool)

theorem settled_from_tape :
    (((outcomes ++ completedOutcomes audit peers).filter (keep ·.intervalId)).map (·.fromTape)).sum =
      (rows.countP (keep ·.intervalId) : Int) := by
  have whole : (((completedOutcomes audit peers).filter (keep ·.intervalId)).map
      (·.fromTape)).sum = 0 := by
    refine sum_eq_zero fun taken listed => ?_
    obtain ⟨outcome, kept, rfl⟩ := mem_map.mp listed
    obtain ⟨item, -, rfl⟩ := mem_map.mp (mem_of_mem_filter kept)
    simp [GapfillInterval.fromTape, completedOutcome]
  rw [filter_append, map_append, sum_append, whole, ← filled.counted keep, Int.add_zero]

theorem settled_from_peers :
    (((outcomes ++ completedOutcomes audit peers).filter (keep ·.intervalId)).map
      (·.recoveredXvendor)).sum =
        ((deriveCrossVendorFill audit peers).rows.countP (keep ·.intervalId) : Int) := by
  let booked : Nat → Int := fun id => ((deriveCrossVendorFill audit peers).recovered.get? id).getD 0
  calc _ = (((outcomes ++ completedOutcomes audit peers).filter (keep ·.intervalId)).map
        fun outcome => booked outcome.intervalId).sum := by
        refine congrArg _ (map_congr_left fun outcome kept => ?_)
        exact settled_xvendor filled outcome (mem_of_mem_filter kept)
    _ = ((((outcomes ++ completedOutcomes audit peers).map (·.intervalId)).filter keep).map booked).sum := by
        rw [filter_map, map_map]
        rfl
    _ = ((((indexedAuditIntervals audit.symbols).map (·.id)).filter keep).map booked).sum :=
        (((settled_ids filled).filter keep).map booked).sum_eq
    _ = (((indexedAuditIntervals audit.symbols).filter (keep ·.id)).map fun item =>
          (crossCount peers item : Int)).sum := by
        rw [filter_map, map_map]
        refine congrArg _ (map_congr_left fun item kept => ?_)
        exact congrArg _ (cross_recovered (mem_of_mem_filter kept))
    _ = _ := by
        rw [cross_rows_count, Nat.cast_list_sum, map_map]
        rfl

/-- The rows written for any set of ids number what the outcomes of these ids recovered. -/
theorem settled_rows_count :
    (((deriveCrossVendorFill audit peers).rows ++ rows).countP (keep ·.intervalId) : Int) =
      (((outcomes ++ completedOutcomes audit peers).filter (keep ·.intervalId)).map
        (·.recovered)).sum := by
  have split (outcome : GapfillInterval) :
      outcome.recovered = outcome.recoveredXvendor + outcome.fromTape := by
    unfold GapfillInterval.fromTape
    omega
  rw [map_congr_left (fun outcome _ => split outcome), sum_map_add,
    settled_from_peers filled, settled_from_tape filled, countP_append, Int.natCast_add]

end Settled

end Job

/-- What the report has to say of an audited interval. -/
structure GapfillInterval.Settles (outcome : GapfillInterval) (item : AuditItem) (rows : List FillRow) :
    Prop where
  symbol : outcome.symbol = item.symbol
  span : (outcome.cumPrev, outcome.cumNext) = (item.interval.cumPrev, item.interval.cumNext)
  missing : outcome.missingTrades = item.interval.missingTrades
  nonneg : 0 ≤ outcome.recovered
  balance : outcome.recovered + outcome.residual = item.interval.missingTrades
  xvendor : outcome.recoveredXvendor ≤ outcome.recovered
  rows : (rows.countP (·.intervalId = item.id) : Int) = outcome.recovered

theorem tape_settles {outcome : GapfillInterval} (settled : outcome.Of prior (item.residual peers))
    (booked : (prior.get? item.id).getD 0 = crossCount peers item)
    (counted : (rows.countP (·.intervalId = item.id) : Int) = outcome.recovered) :
    outcome.Settles item rows := by
  obtain ⟨surplus, last, taken, nonneg, within, rfl⟩ := settled
  have span : ((item.residual peers).interval.cumPrev, (item.residual peers).interval.cumNext) =
      (item.interval.cumPrev, item.interval.cumNext) := by
    unfold AuditItem.residual
    cases (pickTrades peers item).trades? <;> rfl
  replace booked : (prior.get? (item.residual peers).id).getD 0 = crossCount peers item := booked
  rw [residual_missing] at within
  refine ⟨rfl, span, ?_, ?_, ?_, ?_, counted⟩ <;>
    simp only [memberOutcome, booked, residual_missing] <;> omega

/-- An audit document in which every interval that misses trades has its times, as the
auditor writes it. -/
def AuditDocument.Timed (audit : AuditDocument) : Prop :=
  ∀ ledger ∈ audit.symbols, ∀ interval ∈ ledger.intervals, 0 < interval.missingTrades →
    interval.chetimePrev.isSome ∧ interval.chetimeNext.isSome

def AuditDocument.positiveMissing (audit : AuditDocument) : List AuditInterval :=
  audit.symbols.flatMap fun ledger => ledger.intervals.filter (0 < ·.missingTrades)

theorem timed_positive {audit : AuditDocument} (timed : audit.Timed) :
    (auditIntervals audit.symbols).length = audit.positiveMissing.length := by
  simp only [auditIntervals, AuditDocument.positiveMissing, length_flatMap, length_map]
  refine congrArg _ (map_congr_left fun ledger listed => congrArg _ ?_)
  refine filter_congr fun interval inside => ?_
  rw [decide_eq_decide]
  exact ⟨fun audited => audited.1,
    fun positive => ⟨positive, timed ledger listed interval inside positive⟩⟩

theorem sorted_ids
    (ids : (outcomes.map (·.intervalId)).Perm ((indexedAuditIntervals ledgers).map (·.id))) :
    (outcomes.insertionSort (·.intervalId ≤ ·.intervalId)).map (·.intervalId) =
      (indexedAuditIntervals ledgers).map (·.id) := by
  rw [map_insertionSort _ (· ≤ ·) _ _ fun _ _ _ _ => Iff.rfl]
  refine List.Perm.eq_of_pairwise' (r := (· ≤ ·)) ?_ ?_ ((perm_insertionSort _ _).trans ids)
  · exact pairwise_insertionSort _ _
  · rw [indexed_ids]
    exact pairwise_le_range

section Report

variable {audit : AuditDocument} {peers : List Peer} {rows : List FillRow}
  {outcomes : List GapfillInterval} (filled : Filled (deriveCrossVendorFill audit peers).recovered
    ((openItems audit peers).map (·.residual peers)) rows outcomes)

include filled

theorem report_rows_count (keep : Nat → Bool) :
    (((deriveCrossVendorFill audit peers).report rows outcomes
        (completedOutcomes audit peers)).rows.countP (keep ·.intervalId) : Int) =
      ((((deriveCrossVendorFill audit peers).report rows outcomes
        (completedOutcomes audit peers)).outcomes.filter (keep ·.intervalId)).map (·.recovered)).sum :=
  calc _ = (((deriveCrossVendorFill audit peers).rows ++ rows).countP (keep ·.intervalId) : Int) :=
        congrArg _ ((perm_insertionSort _ _).countP_eq _)
    _ = _ := settled_rows_count filled keep
    _ = _ := (((perm_insertionSort _ _).symm.filter _).map _).sum_eq

theorem report_settles (listed : item ∈ indexedAuditIntervals audit.symbols)
    (settled : outcome ∈ ((deriveCrossVendorFill audit peers).report rows outcomes
      (completedOutcomes audit peers)).outcomes) (same : outcome.intervalId = item.id)
    (counted : (written.countP (·.intervalId = item.id) : Int) = outcome.recovered) :
    outcome.Settles item written := by
  have unique {other : AuditItem} (member : other ∈ indexedAuditIntervals audit.symbols)
      (id : other.id = item.id) : other = item :=
    inj_on_of_nodup_map (indexed_nodup audit.symbols) member listed id
  have either : outcome ∈ outcomes ++ completedOutcomes audit peers :=
    (perm_insertionSort _ _).mem_iff.mp settled
  rcases mem_append.mp either with tape | whole
  · obtain ⟨_, shrunk, of⟩ := filled.settled outcome tape
    obtain ⟨source, opened, rfl⟩ := mem_map.mp shrunk
    have ids : outcome.intervalId = source.id := by
      obtain ⟨_, _, _, -, -, rfl⟩ := of
      rfl
    cases unique (mem_of_mem_filter opened) (ids.symm.trans same)
    exact tape_settles of (cross_recovered listed) counted
  · obtain ⟨source, full, rfl⟩ := mem_map.mp whole
    cases unique (mem_of_mem_filter full) same
    have balance : (crossCount peers item : Int) = item.interval.missingTrades := by
      simpa using (mem_filter.mp full).2
    refine ⟨rfl, rfl, rfl, Int.natCast_nonneg _, ?_, le_rfl, counted⟩
    simpa [completedOutcome] using balance

end Report

/-- The books of the gap-fill step are exact. It never rejects its own interval ids; the
report has one outcome for each audited interval, which settles it against the rows; and
the merge finds as many rows as the report counts. Where the document has its times the
audited intervals are those that miss trades. -/
theorem gapfill_books_exact (audit : AuditDocument) (peers : List Peer) (tape : List TapeTrade)
    (received : Received) :
    ∃ report, gapfillStep audit peers tape received = .ok report ∧
      report.outcomes.map (·.intervalId) = (indexedAuditIntervals audit.symbols).map (·.id) ∧
      (∀ item ∈ indexedAuditIntervals audit.symbols, ∀ outcome ∈ report.outcomes,
        outcome.intervalId = item.id → outcome.Settles item report.rows) ∧
      (audit.Timed → report.outcomes.length = audit.positiveMissing.length) ∧
      gapfillRowsNeRecovered report.rows report.totals = false := by
  obtain ⟨rows, outcomes, filled, ran⟩ := gapfill_step_filled audit peers tape received
  have ids := sorted_ids (settled_ids filled)
  refine ⟨_, ran, ids, ?_, ?_, ?_⟩
  · intro item listed outcome settled same
    refine report_settles filled listed settled same ?_
    have only := filter_own (ids ▸ indexed_nodup audit.symbols) settled
    have counted := report_rows_count filled (· = item.id)
    rw [← same, only] at counted
    simpa [same] using counted
  · intro timed
    rw [← timed_positive timed]
    simpa [indexedAuditIntervals, CrossFill.report] using congrArg length ids
  · have total := report_rows_count filled fun _ => true
    simpa [gapfillRowsNeRecovered, CrossFill.report, summarizeGapfill] using total

end KrxAlpha
