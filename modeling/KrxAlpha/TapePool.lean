import Mathlib.Data.List.Flatten
import KrxAlpha.Gapfill

/-! The pool of a cluster. It is read off one tape: every pooled row stands for one trade
of the tape, in the cluster's seconds, and no trade is pooled twice. Where live frames are
known, a second gives the trades by which the tape exceeds them. Trimming keeps a pool of
the wanted size in its order. -/
namespace KrxAlpha
open List

/-- The tape's rows of a symbol and second, in tape order. -/
def rowsAt (entries : List (TapeTrade × Nat)) (symbol : String) (ts : Int) : List TapeRow :=
  (entries.filter fun entry => entry.1.symbol = symbol ∧ entry.1.tsHms = ts).map fun entry =>
    ⟨entry.2, entry.1.price, entry.1.volume⟩

/-! ### The index -/

/-- The rows an index holds under a symbol and second. -/
def indexed (bySymbol : Dict String (Dict Int (List TapeRow))) (symbol : String) (ts : Int) :
    List TapeRow :=
  (((bySymbol.get? symbol).getD ∅).get? ts).getD []

private theorem indexed_set (bySymbol : Dict String (Dict Int (List TapeRow))) (symbol probe : String)
    (ts second : Int) (row : TapeRow) :
    indexed (bySymbol.set symbol (((bySymbol.get? symbol).getD ∅).set ts
        (indexed bySymbol symbol ts ++ [row]))) probe second =
      indexed bySymbol probe second ++ if symbol = probe ∧ ts = second then [row] else [] := by
  unfold indexed
  by_cases here : probe = symbol
  · subst here
    rw [Dict.get?_set_self, Option.getD_some]
    by_cases same : second = ts
    · subst same
      simp
    · rw [Dict.get?_set_of_ne same]
      simp [Ne.symm same]
  · rw [Dict.get?_set_of_ne here]
    simp [Ne.symm here]

theorem index_tape_rows (tape : List TapeTrade) (symbol : String) (ts : Int) :
    indexed (indexTape tape) symbol ts = rowsAt tape.zipIdx symbol ts := by
  have fold : ∀ (entries : List (TapeTrade × Nat)) (start : Dict String (Dict Int (List TapeRow))),
      indexed (entries.foldl (fun bySymbol entry =>
        let byTs := (bySymbol.get? entry.1.symbol).getD ∅
        let rows := (byTs.get? entry.1.tsHms).getD []
        bySymbol.set entry.1.symbol
          (byTs.set entry.1.tsHms (rows ++ [⟨entry.2, entry.1.price, entry.1.volume⟩]))) start)
        symbol ts =
        indexed start symbol ts ++ rowsAt entries symbol ts := by
    intro entries
    induction entries with
    | nil => simp [rowsAt]
    | cons entry rest ih =>
      intro start
      obtain ⟨trade, seq⟩ := entry
      have placed := indexed_set start trade.symbol symbol trade.tsHms ts
        ⟨seq, trade.price, trade.volume⟩
      rw [foldl_cons, ih]
      simp only [indexed] at placed ⊢
      rw [placed]
      by_cases here : trade.symbol = symbol ∧ trade.tsHms = ts <;> simp [rowsAt, here]
  exact fold tape.zipIdx ∅

/-- A row of a symbol and second is a trade of the tape, found under the row's number. -/
theorem mem_rows_at {tape : List TapeTrade} :
    row ∈ rowsAt tape.zipIdx symbol ts ↔
      tape[row.seq]? = some ⟨symbol, ts, row.price, row.volume⟩ := by
  simp only [rowsAt, mem_map, mem_filter, decide_eq_true_eq]
  constructor
  · rintro ⟨⟨trade, seq⟩, ⟨listed, rfl, rfl⟩, rfl⟩
    exact mem_zipIdx_iff_getElem?.mp listed
  · intro found
    exact ⟨(_, row.seq), ⟨mem_zipIdx_iff_getElem?.mpr found, rfl, rfl⟩, rfl⟩

theorem rows_at_distinct (tape : List TapeTrade) (symbol : String) (ts : Int) :
    ((rowsAt tape.zipIdx symbol ts).map (·.seq)).Nodup := by
  have numbers : (tape.zipIdx.map Prod.snd).Nodup := by
    rw [zipIdx_map_snd]
    exact nodup_range' ..
  simp only [rowsAt, map_map, Function.comp_def]
  exact numbers.sublist (filter_sublist.map _)

/-! ### Pooling -/

/-- A pool read off a tape for a symbol and a range of seconds. -/
structure DrawnFrom (tape : List TapeTrade) (symbol : String) (lo hi : Int)
    (pool : List (Int × TapeRow)) : Prop where
  sorted : pool.Pairwise (·.1 ≤ ·.1)
  distinct : (pool.map (·.2.seq)).Nodup
  read : ∀ pooled ∈ pool, lo ≤ pooled.1 ∧ pooled.1 ≤ hi ∧
    tape[pooled.2.seq]? = some ⟨symbol, pooled.1, pooled.2.price, pooled.2.volume⟩

theorem DrawnFrom.sublist (drawn : DrawnFrom tape symbol lo hi pool)
    (part : some_.Sublist pool) : DrawnFrom tape symbol lo hi some_ where
  sorted := drawn.sorted.sublist part
  distinct := drawn.distinct.sublist (part.map _)
  read pooled inside := drawn.read pooled (part.subset inside)

theorem not_received_sublist (held : List (Int × Int)) (rows : List TapeRow) :
    (notReceived held rows).Sublist rows := by
  induction rows generalizing held with
  | nil => exact .slnil
  | cons row rest ih =>
    rw [notReceived]
    split
    · exact (ih _).cons row
    · exact (ih _).cons_cons row

/-- As multisets of price and volume, what was not received is the tape less the live
trades. -/
theorem not_received_count (held : List (Int × Int)) (rows : List TapeRow) (price volume : Int) :
    (notReceived held rows).countP (fun row => row.price = price ∧ row.volume = volume) =
      rows.countP (fun row => row.price = price ∧ row.volume = volume) -
        held.count (price, volume) := by
  induction rows generalizing held with
  | nil => simp [notReceived]
  | cons row rest ih =>
    rw [notReceived, countP_cons]
    split
    · rename_i live
      rw [ih]
      by_cases same : row.price = price ∧ row.volume = volume
      · obtain ⟨rfl, rfl⟩ := same
        have counted : 0 < held.count (row.price, row.volume) := count_pos_iff.mpr live
        rw [count_erase_self]
        simp only [and_self, decide_true, if_true]
        omega
      · have other : (price, volume) ≠ (row.price, row.volume) := by
          intro equal
          cases equal
          exact same ⟨rfl, rfl⟩
        rw [count_erase_of_ne other]
        simp [same]
    · rename_i unseen
      rw [countP_cons, ih]
      by_cases same : row.price = price ∧ row.volume = volume
      · obtain ⟨rfl, rfl⟩ := same
        rw [count_eq_zero.mpr unseen]
        simp
      · simp [same]

/-- The rows of every second the index has, second by second. -/
def allRows (byTs : Dict Int (List TapeRow)) : List (Int × TapeRow) :=
  (byTs.keys.insertionSort (· ≤ ·)).flatMap fun ts => ((byTs.get? ts).getD []).map (ts, ·)

theorem pooled_rows_sublist (byTs : Dict Int (List TapeRow)) (lo hi : Int)
    (received : Option Received) (symbol : String) :
    (pooledRows byTs lo hi received symbol).Sublist (allRows byTs) := by
  apply List.Sublist.flatMap_right
  intro ts _
  simp only
  split
  · split
    · split
      · exact .refl _
      · exact nil_sublist _
    · exact (not_received_sublist _ _).map _
  · exact nil_sublist _

theorem pooled_rows_within
    (inside : pooled ∈ pooledRows byTs lo hi received symbol) : lo ≤ pooled.1 ∧ pooled.1 ≤ hi := by
  obtain ⟨ts, -, member⟩ := mem_flatMap.mp inside
  simp only at member
  split at member
  · rename_i within
    have same : pooled.1 = ts := by
      split at member
      · split at member
        · obtain ⟨row, -, rfl⟩ := mem_map.mp member
          rfl
        · cases member
      · obtain ⟨row, -, rfl⟩ := mem_map.mp member
        rfl
    rw [same]
    exact within
  · cases member

section Index

variable (tape : List TapeTrade) (symbol : String)

/-- The index of the tape under the symbol. -/
def secondsOf : Dict Int (List TapeRow) := ((indexTape tape).get? symbol).getD ∅

theorem seconds_of_rows (ts : Int) :
    ((secondsOf tape symbol).get? ts).getD [] = rowsAt tape.zipIdx symbol ts :=
  index_tape_rows tape symbol ts

private theorem all_rows_at (inside : pooled ∈ allRows (secondsOf tape symbol)) :
    pooled.2 ∈ rowsAt tape.zipIdx symbol pooled.1 := by
  obtain ⟨ts, -, member⟩ := mem_flatMap.mp inside
  obtain ⟨row, listed, rfl⟩ := mem_map.mp member
  rwa [seconds_of_rows] at listed

theorem all_rows_sorted : (allRows (secondsOf tape symbol)).Pairwise (·.1 ≤ ·.1) := by
  apply pairwise_flatMap.mpr
  refine ⟨fun ts _ => ?_, ?_⟩
  · rw [pairwise_map]
    exact pairwise_of_forall fun _ _ => le_rfl
  · apply (pairwise_insertionSort (· ≤ ·) _).imp
    intro first second order x early y late
    obtain ⟨row, -, rfl⟩ := mem_map.mp early
    obtain ⟨other, -, rfl⟩ := mem_map.mp late
    exact order

theorem all_rows_distinct : ((allRows (secondsOf tape symbol)).map (·.2.seq)).Nodup := by
  rw [allRows, map_flatMap]
  apply pairwise_flatMap.mpr
  refine ⟨fun ts _ => ?_, ?_⟩
  · rw [seconds_of_rows, map_map]
    exact rows_at_distinct tape symbol ts
  · have keys : ((secondsOf tape symbol).keys.insertionSort (· ≤ ·)).Nodup :=
      (perm_insertionSort _ _).nodup_iff.mpr (Dict.keys_nodup _)
    apply keys.imp
    intro first second different seq early other late same
    -- A row's number names its trade, and the trade its second.
    rw [map_map] at early late
    obtain ⟨row, listed, rfl⟩ := mem_map.mp early
    obtain ⟨twin, listedToo, rfl⟩ := mem_map.mp late
    rw [seconds_of_rows] at listed listedToo
    have one := mem_rows_at.mp listed
    have two := mem_rows_at.mp listedToo
    simp only [Function.comp_apply] at same
    rw [same, two, Option.some.injEq, TapeTrade.mk.injEq] at one
    exact different one.2.1.symm

theorem pooled_rows_drawn (lo hi : Int) (received : Option Received) :
    DrawnFrom tape symbol lo hi (pooledRows (secondsOf tape symbol) lo hi received symbol) := by
  have part := pooled_rows_sublist (secondsOf tape symbol) lo hi received symbol
  refine ⟨(all_rows_sorted tape symbol).sublist part,
    (all_rows_distinct tape symbol).sublist (part.map _), fun pooled inside => ?_⟩
  obtain ⟨low, high⟩ := pooled_rows_within inside
  exact ⟨low, high, mem_rows_at.mp (all_rows_at tape symbol (part.subset inside))⟩

/-- The trades of a tape at one symbol, second, price and volume. -/
def tapeCount (ts price volume : Int) : Nat := tape.count ⟨symbol, ts, price, volume⟩

/-- The live trades at one symbol, second, price and volume. -/
def liveCount (live : Received) (ts price volume : Int) : Nat :=
  (((live.get? (symbol, ts)).getD []).map Prod.snd).count (price, volume)

private theorem rows_at_count (ts price volume : Int) :
    (rowsAt tape.zipIdx symbol ts).countP (fun row => row.price = price ∧ row.volume = volume) =
      tapeCount tape symbol ts price volume := by
  have general : ∀ start, (rowsAt (tape.zipIdx start) symbol ts).countP
      (fun row => row.price = price ∧ row.volume = volume) = tape.count ⟨symbol, ts, price, volume⟩ := by
    induction tape with
    | nil => simp [rowsAt]
    | cons trade rest ih =>
      intro start
      have later := ih (start + 1)
      obtain ⟨name, second, paid, size⟩ := trade
      rw [zipIdx_cons, count_cons, ← later]
      by_cases here : name = symbol ∧ second = ts
      · obtain ⟨rfl, rfl⟩ := here
        simp [rowsAt, countP_cons]
      · have other : ((⟨name, second, paid, size⟩ : TapeTrade) == ⟨symbol, ts, price, volume⟩) = false := by
          rw [beq_eq_false_iff_ne]
          intro equal
          cases equal
          exact here ⟨rfl, rfl⟩
        simp [rowsAt, here, other]
  exact general 0

/-- With live frames known, a second within the range is pooled as the tape's excess over
them, price by price and volume by volume. -/
theorem pooled_rows_count (within : lo ≤ ts ∧ ts ≤ hi) (live : Received) (price volume : Int) :
    (pooledRows (secondsOf tape symbol) lo hi (some live) symbol).countP
        (fun pooled => pooled.1 = ts ∧ pooled.2.price = price ∧ pooled.2.volume = volume) =
      tapeCount tape symbol ts price volume - liveCount symbol live ts price volume := by
  -- Only the rows of the second itself count, and these are pooled once.
  have second : ∀ other, ((if lo ≤ other ∧ other ≤ hi then
        (notReceived (((live.get? (symbol, other)).getD []).map Prod.snd)
          (((secondsOf tape symbol).get? other).getD [])).map (other, ·)
      else []).countP fun pooled =>
        pooled.1 = ts ∧ pooled.2.price = price ∧ pooled.2.volume = volume) =
      if other = ts then tapeCount tape symbol ts price volume - liveCount symbol live ts price volume
      else 0 := by
    intro other
    by_cases same : other = ts
    · subst same
      rw [if_pos within, if_pos rfl, countP_map, ← rows_at_count, ← seconds_of_rows]
      simpa [Function.comp_def, liveCount] using not_received_count _ _ price volume
    · rw [if_neg same]
      split
      · simp [countP_map, Function.comp_def, same]
      · rfl
  unfold pooledRows
  rw [countP_flatMap]
  simp only [Function.comp_def, second]
  rw [sum_map_eq_nsmul_single ts _ fun other apart _ => if_neg apart, if_pos rfl, nsmul_eq_mul, Nat.cast_id,
    (perm_insertionSort _ _).count_eq]
  by_cases known : ts ∈ (secondsOf tape symbol).keys
  · rw [count_eq_one_of_mem (Dict.keys_nodup _) known, Nat.one_mul]
  · have none := seconds_of_rows tape symbol ts
    rw [Dict.get?_eq_none.mpr known, Option.getD_none] at none
    rw [count_eq_zero.mpr known, ← rows_at_count, ← none]
    simp

end Index

/-! ### Trimming -/

section Trim

variable (pool : List (Int × TapeRow)) (drop : Nat)

private theorem last_of_volume_lt
    (found : lastOfVolume pool excess = some index) : index < pool.length := by
  have listed := mem_of_find?_eq_some found
  simpa using listed

private theorem unzipped : pool.zipIdx.map Prod.fst = pool := zipIdx_map_fst 0 pool

private theorem left_length {entries sorted : List ((Int × TapeRow) × Nat)}
    (same : sorted.Perm entries) (distinct : (entries.map Prod.snd).Nodup) :
    (entries.filter fun entry => entry.2 ∉ (sorted.map Prod.snd).take drop).length =
      entries.length - drop := by
  have apart := (same.map Prod.snd).nodup_iff.mpr distinct
  rw [← take_append_drop drop (sorted.map Prod.snd), nodup_append] at apart
  have first : (sorted.take drop).filter
      (fun entry => entry.2 ∉ (sorted.map Prod.snd).take drop) = [] := by
    apply filter_eq_nil_iff.mpr
    intro entry member
    have taken : entry.2 ∈ (sorted.map Prod.snd).take drop := by
      rw [← map_take]
      exact mem_map_of_mem member
    simpa using taken
  have rest : (sorted.drop drop).filter
      (fun entry => entry.2 ∉ (sorted.map Prod.snd).take drop) = sorted.drop drop := by
    apply filter_eq_self.mpr
    intro entry member
    have late : entry.2 ∈ (sorted.map Prod.snd).drop drop := by
      rw [← map_drop]
      exact mem_map_of_mem member
    simpa using fun early => apart.2.2 entry.2 early entry.2 late rfl
  calc (entries.filter fun entry => entry.2 ∉ (sorted.map Prod.snd).take drop).length
      = (sorted.filter fun entry => entry.2 ∉ (sorted.map Prod.snd).take drop).length :=
        (same.filter _).length_eq.symm
    _ = (sorted.drop drop).length := by
        conv_lhs => arg 1; arg 2; rw [← take_append_drop drop sorted]
        rw [filter_append, first, rest, nil_append]
    _ = entries.length - drop := by rw [length_drop, same.length_eq]

theorem trim_surplus_sublist (keep deficit : Int) : (trimSurplus pool keep deficit).Sublist pool := by
  unfold trimSurplus
  simp only
  split
  · exact eraseIdx_sublist ..
  · conv_rhs => rw [← unzipped pool]
    exact filter_sublist.map _

theorem trim_surplus_length {keep : Int} (deficit : Int) (some_ : 0 ≤ keep)
    (enough : keep ≤ pool.length) : ((trimSurplus pool keep deficit).length : Int) = keep := by
  unfold trimSurplus
  simp only
  split
  · rename_i index single
    split at single
    · rename_i one
      rw [length_eraseIdx_of_lt (last_of_volume_lt pool single)]
      have bound := last_of_volume_lt pool single
      omega
    · cases single
  · have numbers : (pool.zipIdx.map Prod.snd).Nodup := by
      rw [zipIdx_map_snd]
      exact nodup_range' ..
    rw [length_map, smallestRows, left_length _ (perm_insertionSort _ _) numbers,
      length_zipIdx]
    omega

end Trim

/-! ### The pool a cluster hands out -/

section Chosen

variable {sources : List GapfillSource} {received : Option Received} {cluster : Cluster}
  {source : GapfillSource} {found pool : List (Int × TapeRow)}

/-- The trades a cluster misses. -/
def Cluster.missing (cluster : Cluster) : Int := (cluster.members.map (·.interval.missingTrades)).sum

/-- The chosen source and what of its pool is handed out. -/
def handedPool (sources : List GapfillSource) (received : Option Received) (cluster : Cluster) :
    Option (GapfillSource × List (Int × TapeRow)) :=
  (choosePool sources received cluster).map fun (source, found) =>
    (source,
      if max 0 ((found.length : Int) - cluster.missing) ≠ 0 then
        trimSurplus found cluster.missing (cluster.members.map (·.interval.volumeDeficit)).sum
      else found)

theorem choose_pool_some (chosen : choosePool sources received cluster = some (source, found)) :
    source ∈ sources ∧
      found = pooledRows (secondsOf source.tape cluster.symbol) cluster.lo cluster.hi received
        cluster.symbol := by
  obtain ⟨front, candidate, back, split, pooled, -⟩ := findSome?_eq_some_iff.mp chosen
  simp only at pooled
  split at pooled
  · cases pooled
  · cases pooled
    exact ⟨by simp [split], rfl⟩

/-- Where no source is chosen, none has a trade to pool. -/
theorem choose_pool_none (unchosen : choosePool sources received cluster = none)
    (listed : source ∈ sources) :
    pooledRows (secondsOf source.tape cluster.symbol) cluster.lo cluster.hi received cluster.symbol =
      [] := by
  have here := findSome?_eq_none_iff.mp unchosen source listed
  simp only at here
  split at here
  · assumption
  · cases here

theorem handed_pool_some (missing : 0 ≤ cluster.missing)
    (handed : handedPool sources received cluster = some (source, pool)) :
    ∃ found, choosePool sources received cluster = some (source, found) ∧ pool.Sublist found ∧
      (pool.length : Int) = min (found.length : Int) cluster.missing ∧
      ((found.length : Int) ≤ cluster.missing → pool = found) ∧
      DrawnFrom source.tape cluster.symbol cluster.lo cluster.hi pool := by
  obtain ⟨⟨chosen, found⟩, choice, same⟩ := Option.map_eq_some_iff.mp handed
  simp only [Prod.mk.injEq] at same
  obtain ⟨rfl, rfl⟩ := same
  obtain ⟨-, pooled⟩ := choose_pool_some choice
  have drawn : DrawnFrom chosen.tape cluster.symbol cluster.lo cluster.hi found :=
    pooled ▸ pooled_rows_drawn ..
  refine ⟨found, choice, ?_⟩
  split
  · rename_i surplus
    have part := trim_surplus_sublist found cluster.missing
      (cluster.members.map (·.interval.volumeDeficit)).sum
    refine ⟨part, ?_, fun fits => ?_, drawn.sublist part⟩
    · rw [trim_surplus_length found _ missing (by omega)]
      omega
    · omega
  · exact ⟨.refl _, by omega, fun _ => rfl, drawn⟩

end Chosen

end KrxAlpha
