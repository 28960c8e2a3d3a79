import KrxAlpha.TapeRuns

/-! The tape store over any number of interrupted runs. A recorded pair is not fetched again. Only a
run that is cut off between the file and the record leaves a file whose pair the next run publishes
again, and the gap-fill then reads the day's trades twice. -/
namespace KrxAlpha
open List

/-! ### The planned targets -/

section Plan

variable {store : TapeStore} {plan : TapePlan}

theorem mem_plan (listed : target ∈ planTickTapeTargets store plan) :
    ∃ wished ∈ plan.targets, target.symbol = wished.symbol ∧ target.days.Sublist wished.days ∧
      ∀ day ∈ target.days, store.ledgerDone target.symbol day = false := by
  obtain ⟨wished, inside, rfl⟩ := mem_map.mp (mem_of_mem_filter listed)
  exact ⟨wished, inside, rfl, filter_sublist,
    fun day asked => by simpa using (mem_filter.mp asked).2⟩

theorem plan_distinct : ((planTickTapeTargets store plan).map TickTapeTarget.symbol).Nodup := by
  have wished : ((plan.targets.map fun target =>
      { target with days := target.days.filter fun day =>
        !store.ledgerDone target.symbol day }).map TickTapeTarget.symbol).Nodup := by
    rw [map_map]
    exact plan.distinct
  exact wished.sublist (filter_sublist.map _)

theorem plan_days : ∀ target ∈ planTickTapeTargets store plan, target.days.Nodup := by
  intro target listed
  obtain ⟨wished, inside, -, days, -⟩ := mem_plan listed
  exact (plan.daysDistinct wished inside).sublist days

theorem TapeRun.Serves.planned {vendor : String → Int → List TapeTick} {run : TapeRun}
    (serves : run.Serves vendor run.plan.targets) (store : TapeStore) :
    run.Serves vendor (planTickTapeTargets store run.plan) := by
  intro target listed pass
  obtain ⟨wished, inside, symbol, days, -⟩ := mem_plan listed
  obtain ⟨tape, ordered, start, same⟩ := serves wished inside pass
  rw [symbol]
  exact ⟨tape, ordered, start, fun day asked => same day (days.subset asked)⟩

end Plan

/-! ### The store after any number of runs -/

namespace TapeEffect

def file : TapeEffect → Option ((Int × String) × List PartitionRow)
  | .publish day label chunks =>
    some ((day, partitionName label), chunks.flatMap DayChunk.rows)
  | _ => none

def line : TapeEffect → Option TapeRecord
  | .record settled => some settled
  | _ => none

end TapeEffect

/-- One store is the other after these effects. -/
structure Grown (before after : TapeStore) (effects : List TapeEffect) : Prop where
  files : after.partitions.entries = before.partitions.entries ++ effects.filterMap TapeEffect.file
  lines : after.ledger = before.ledger ++ effects.filterMap TapeEffect.line

theorem Grown.refl (store : TapeStore) : Grown store store [] := ⟨by simp, by simp⟩

theorem Grown.trans (earlier : Grown first second effects) (later : Grown second third more) :
    Grown first third (effects ++ more) :=
  ⟨by rw [later.files, earlier.files, filterMap_append, append_assoc],
    by rw [later.lines, earlier.lines, filterMap_append, append_assoc]⟩

theorem perform_grown
    (performed : store.perform effect = some newer) : Grown store newer [effect] := by
  cases effect with
  | marker runId =>
    simp only [TapeStore.perform, Option.ite_none_left_eq_some, Option.some.injEq] at performed
    obtain ⟨-, rfl⟩ := performed
    exact ⟨by simp [TapeEffect.file], by simp [TapeEffect.line]⟩
  | publish day label chunks =>
    simp only [TapeStore.perform, Option.ite_none_left_eq_some, Option.some.injEq] at performed
    obtain ⟨fresh, rfl⟩ := performed
    exact ⟨Dict.entries_set_new (by simpa using fresh), by simp [TapeEffect.line]⟩
  | record settled =>
    cases performed
    exact ⟨by simp [TapeEffect.file], by simp [TapeEffect.line]⟩

/-- What is performed is the beginning of what there was to perform. -/
theorem perform_all_grown (store : TapeStore) (effects : List TapeEffect) :
    (store.performAll effects).2 <+: effects ∧
      Grown store (store.performAll effects).1 (store.performAll effects).2 := by
  induction effects generalizing store with
  | nil => exact ⟨prefix_refl _, .refl store⟩
  | cons effect rest step =>
    rw [TapeStore.performAll]
    cases performed : store.perform effect with
    | none => exact ⟨ nil_prefix, .refl store⟩
    | some next =>
      obtain ⟨start, grown⟩ := step next
      exact ⟨prefix_cons_inj _ |>.mpr start, (perform_grown performed).trans grown⟩

/-- The effects of one run of many: orderly, and of pairs the ledger did not have. -/
structure Lawful (vendor : String → Int → List TapeTick) (ledger : List TapeRecord)
    (history : List TapeEffect) : Prop where
  named : ∀ chunk ∈ chunksOf history, chunk.symbol ≠ ""
  whole : ∀ chunk ∈ chunksOf history,
    chunk.ticks = vendor chunk.symbol chunk.day ∧ chunk.ticks ≠ []
  distinct : ((chunksOf history).map DayChunk.pair).Nodup
  uniform : ∀ effect ∈ history, effect.Uniform
  backed : Backed [] history
  unsettled : ∀ chunk ∈ chunksOf history, ∀ record ∈ ledger, record.status = .complete →
    (record.symbol, record.date) ≠ chunk.pair

variable {vendor : String → Int → List TapeTick}

theorem backfill_lawful {run : TapeRun}
    (serves : run.Serves vendor run.plan.targets) (store : TapeStore) :
    Lawful vendor store.ledger (store.backfill run).2 ∧
      Grown store (store.backfill run).1 (store.backfill run).2 := by
  have whole := run_effects_orderly (serves.planned store) plan_days plan_distinct
  obtain ⟨start, grown⟩ := perform_all_grown store (run.durable.elim
    (tapeRunEffects run (planTickTapeTargets store run.plan))
    (tapeRunEffects run (planTickTapeTargets store run.plan)).take)
  have cut : run.durable.elim (tapeRunEffects run (planTickTapeTargets store run.plan))
      (tapeRunEffects run (planTickTapeTargets store run.plan)).take <+:
        tapeRunEffects run (planTickTapeTargets store run.plan) := by
    cases run.durable with
    | none => exact prefix_refl _
    | some count => exact take_prefix _ _
  have orderly := whole.of_prefix (start.trans cut)
  refine ⟨⟨fun chunk member => ?_, fun chunk member => ?_, orderly.distinct, orderly.uniform,
    orderly.backed, fun chunk member record settled complete same => ?_⟩, grown⟩
  · obtain ⟨target, planned, symbol, -⟩ := (orderly.good chunk member).asked
    obtain ⟨wished, inside, same, -⟩ := mem_plan planned
    rw [← symbol, same]
    exact run.plan.named wished inside
  · exact ⟨(orderly.good chunk member).whole, (orderly.good chunk member).nonempty⟩
  · obtain ⟨target, planned, symbol, asked⟩ := (orderly.good chunk member).asked
    obtain ⟨-, -, -, -, open_⟩ := mem_plan planned
    have unsettled := open_ chunk.day asked
    simp only [TapeStore.ledgerDone, any_eq_false] at unsettled
    obtain ⟨sameSymbol, sameDay⟩ := Prod.mk.inj same
    exact unsettled record settled (by simp [complete, sameSymbol, sameDay, symbol])

/-- The histories of runs one after the other, from a ledger on. -/
def Chronicle (vendor : String → Int → List TapeTick) :
    List TapeRecord → List (List TapeEffect) → Prop
  | _, [] => True
  | ledger, history :: rest => Lawful vendor ledger history ∧
    Chronicle vendor (ledger ++ history.filterMap TapeEffect.line) rest

theorem backfills_chronicle {runs : List TapeRun}
    (fixed : ∀ run ∈ runs, run.Serves vendor run.plan.targets) (store : TapeStore) :
    Chronicle vendor store.ledger (store.backfills runs).2 ∧
      Grown store (store.backfills runs).1 (store.backfills runs).2.flatten := by
  induction runs generalizing store with
  | nil => exact ⟨trivial, .refl store⟩
  | cons run rest step =>
    obtain ⟨here, later⟩ := forall_mem_cons.mp fixed
    obtain ⟨lawful, grown⟩ := backfill_lawful here store
    obtain ⟨chronicle, onwards⟩ := step later (store.backfill run).1
    exact ⟨⟨lawful, grown.lines ▸ chronicle⟩, grown.trans onwards⟩

/-! ### How often a pair is published -/

/-- The run published a file with the pair. -/
def Publishes (history : List TapeEffect) (pair : String × Int) : Prop :=
  pair ∈ (chunksOf history).map DayChunk.pair

/-- The run recorded the pair as complete. -/
def Completes (history : List TapeEffect) (pair : String × Int) : Prop :=
  ∃ effect ∈ history, effect.Completes pair

def publications (histories : List (List TapeEffect)) (pair : String × Int) : Nat :=
  ((chunksOf histories.flatten).map DayChunk.pair).count pair

section Chronicle

variable {vendor : String → Int → List TapeTick} {ledger : List TapeRecord}
  {histories : List (List TapeEffect)} {history : List TapeEffect} {pair : String × Int}

theorem publications_cons : publications (history :: histories) pair =
    ((chunksOf history).map DayChunk.pair).count pair + publications histories pair := by
  simp [publications, chunks_of_append]

theorem publications_pos (listed : history ∈ histories) (published : Publishes history pair) :
    0 < publications histories pair := by
  refine count_pos_iff.mpr ?_
  obtain ⟨chunk, member, same⟩ := mem_map.mp published
  exact mem_map.mpr ⟨chunk, mem_chunks_flatten.mpr ⟨history, listed, member⟩, same⟩

section

variable (chronicle : Chronicle vendor ledger histories) (listed : history ∈ histories)
include chronicle listed

/-- Every history is lawful for a ledger that has what the first one had. -/
theorem Chronicle.lawful : ∃ known, ledger ⊆ known ∧ Lawful vendor known history := by
  induction histories generalizing ledger with
  | nil => cases listed
  | cons first rest step =>
    obtain ⟨lawful, later⟩ := chronicle
    rcases mem_cons.mp listed with rfl | inside
    · exact ⟨ledger, List.Subset.refl _, lawful⟩
    · obtain ⟨known, grown, lawful⟩ := step later inside
      exact ⟨known, fun record held => grown (mem_append_left _ held), lawful⟩

/-- A run that completes a pair has published it. -/
theorem publishes_of_completes (completes : Completes history pair) : Publishes history pair := by
  obtain ⟨effect, member, completes⟩ := completes
  obtain ⟨known, -, lawful⟩ := chronicle.lawful listed
  exact lawful.backed.mem member completes

end

theorem complete_line (completes : Completes history pair) :
    ∃ record ∈ history.filterMap TapeEffect.line, record.status = .complete ∧
      (record.symbol, record.date) = pair := by
  obtain ⟨effect, listed, completes⟩ := completes
  cases effect with
  | marker runId => exact completes.elim
  | publish day label chunks => exact completes.elim
  | record settled => exact ⟨settled, mem_filterMap.mpr ⟨_, listed, rfl⟩, completes⟩

section

variable (chronicle : Chronicle vendor ledger histories)
include chronicle

/-- A pair the ledger has as complete is not published any more. -/
theorem publications_settled
    (settled : ∃ record ∈ ledger, record.status = .complete ∧ (record.symbol, record.date) = pair) :
    publications histories pair = 0 := by
  rw [publications, count_eq_zero]
  intro published
  obtain ⟨chunk, member, pairs⟩ := mem_map.mp published
  obtain ⟨history, listed, held⟩ := mem_chunks_flatten.mp member
  obtain ⟨known, grown, lawful⟩ := chronicle.lawful listed
  obtain ⟨record, recorded, complete, same⟩ := settled
  exact lawful.unsettled chunk held record (grown recorded) complete (same.trans pairs.symm)

/-- A pair is published once at most when every run that publishes it records it. -/
theorem publications_le_one
    (recorded : ∀ history ∈ histories, Publishes history pair → Completes history pair) :
    publications histories pair ≤ 1 := by
  induction histories generalizing ledger with
  | nil => exact Nat.zero_le _
  | cons history rest step =>
    obtain ⟨lawful, later⟩ := chronicle
    obtain ⟨here, others⟩ := forall_mem_cons.mp recorded
    rw [publications_cons]
    by_cases published : Publishes history pair
    · obtain ⟨record, listed, complete, same⟩ := complete_line (here published)
      rw [publications_settled later ⟨record, mem_append_right _ listed, complete, same⟩]
      exact nodup_iff_count_le_one.mp lawful.distinct pair
    · rw [count_eq_zero.mpr published, Nat.zero_add]
      exact step later others

/-- A pair that is complete and was published once was recorded by the run that published it. -/
theorem recorded_of_once (complete : ∃ history ∈ histories, Completes history pair)
    (once : publications histories pair ≤ 1) :
    ∀ history ∈ histories, Publishes history pair → Completes history pair := by
  induction histories generalizing ledger with
  | nil => exact fun history listed => absurd listed not_mem_nil
  | cons history rest step =>
    obtain ⟨done, inside, completes⟩ := complete
    have published := publishes_of_completes chronicle inside completes
    rw [publications_cons] at once
    intro other listed publishes
    rcases mem_cons.mp inside with rfl | later
    · have first := count_pos_iff.mpr published
      rcases mem_cons.mp listed with rfl | among
      · exact completes
      · have := publications_pos among publishes
        omega
    · have further := publications_pos later published
      rcases mem_cons.mp listed with rfl | among
      · have := count_pos_iff.mpr publishes
        omega
      · exact step chronicle.2 ⟨done, later, completes⟩ (by omega) other among publishes

end

end Chronicle

/-! ### What the readers find -/

/-- A vendor's trade under a six-digit code. -/
def tapeTrade (code : String) (tick : TapeTick) : TapeTrade :=
  ⟨code, tick.tsHms, tick.price, tick.volume⟩

def DayChunk.trades (chunk : DayChunk) : List TapeTrade :=
  chunk.ticks.map (tapeTrade (zfill 6 chunk.symbol))

/-- The chunks published of a day under a six-digit code. -/
def chunksFor (effects : List TapeEffect) (day : Int) (code : String) : List DayChunk :=
  (chunksOf effects).filter fun chunk => chunk.day = day ∧ zfill 6 chunk.symbol = code

theorem rows_trades (chunk : DayChunk) : chunk.rows.map PartitionRow.trade = chunk.trades := by
  rw [DayChunk.rows, map_map, DayChunk.trades]
  conv_rhs => rw [← zipIdx_map_fst 0 chunk.ticks, map_map]
  rfl

section Readers

variable {effects : List TapeEffect} {day : Int} {code : String}

theorem file_rows (uniform : ∀ effect ∈ effects, effect.Uniform) :
    ((effects.filterMap TapeEffect.file).filter (·.1.1 = day)).flatMap Prod.snd =
      ((chunksOf effects).filter (·.day = day)).flatMap DayChunk.rows := by
  induction effects with
  | nil => rfl
  | cons effect rest step =>
    obtain ⟨here, later⟩ := forall_mem_cons.mp uniform
    rw [chunksOf, flatMap_cons, filter_append, flatMap_append, ← chunksOf, ← step later]
    cases effect with
    | marker runId => rfl
    | record settled => rfl
    | publish published label chunks =>
      have file : (TapeEffect.publish published label chunks).file =
          some ((published, partitionName label), chunks.flatMap DayChunk.rows) := rfl
      rw [filterMap_cons_some file]
      have one : chunks.filter (·.day = day) = chunks.filter fun _ => published = day :=
        filter_congr fun chunk member => by rw [(here chunk member).1]
      by_cases same : published = day <;> simp [TapeEffect.chunks, one, same]

variable {store : TapeStore}

theorem day_rows_perm (day : Int) (grown : Grown {} store effects)
    (uniform : ∀ effect ∈ effects, effect.Uniform) :
    (store.dayRows day).Perm
      (((chunksOf effects).filter (·.day = day)).flatMap DayChunk.rows) := by
  rw [← file_rows uniform, TapeStore.dayRows, grown.files]
  exact (perm_insertionSort _ _).flatMap_right _

theorem day_trades_perm (day : Int) (code : String) (grown : Grown {} store effects)
    (uniform : ∀ effect ∈ effects, effect.Uniform) :
    (((store.dayRows day).map PartitionRow.trade).filter (·.symbol = code)).Perm
      ((chunksFor effects day code).flatMap DayChunk.trades) := by
  refine (((day_rows_perm day grown uniform).map PartitionRow.trade).filter _).trans ?_
  rw [map_flatMap]
  simp only [rows_trades]
  rw [filter_flatMap_whole (q := fun chunk => zfill 6 chunk.symbol = code), filter_filter]
  · exact .of_eq (congrArg _ (filter_congr fun chunk _ => by rw [Bool.decide_and, Bool.and_comm]))
  · intro chunk _ trade member
    obtain ⟨tick, -, rfl⟩ := mem_map.mp member
    rfl

/-- The gap-fill reads under a code all that was published under it. -/
theorem load_perm (day : Int) (grown : Grown {} store effects)
    (uniform : ∀ effect ∈ effects, effect.Uniform)
    (asked : symbol ∈ symbols) (named : symbol ≠ "") :
    ((store.loadTapeForSymbols day symbols).filter (·.symbol = zfill 6 symbol)).Perm
      ((chunksFor effects day (zfill 6 symbol)).flatMap DayChunk.trades) := by
  have wanted : zfill 6 symbol ∈ (symbols.filter (· ≠ "")).map (zfill 6) :=
    mem_map_of_mem (mem_filter.mpr ⟨asked, by simpa using named⟩)
  refine List.Perm.trans (.of_eq ?_) (day_trades_perm day (zfill 6 symbol) grown uniform)
  rw [TapeStore.loadTapeForSymbols, filter_filter]
  refine filter_congr fun trade _ => ?_
  by_cases same : trade.symbol = zfill 6 symbol
  · rw [same]
    simpa using wanted
  · simp [same]

private theorem filter_code {rows : List TopupRow} {keep : TopupRow → Bool}
    (kept : ∀ row ∈ rows, row.symbol = code → keep row = true) :
    (rows.filter keep).filter (·.symbol = code) = rows.filter (·.symbol = code) := by
  rw [filter_filter]
  refine filter_congr fun row listed => ?_
  by_cases here : row.symbol = code
  · simp [here, kept row listed here]
  · simp [here]

/-- Rows of one run only: the merge takes them all. -/
theorem load_rows_of_one (asked : code ∈ symbols)
    (one : ∀ row ∈ store.dayRows day, zfill 6 row.symbol = code → row.runId = label) :
    (store.loadTapeRows day symbols).filter (·.symbol = code) =
      ((store.dayRows day).map PartitionRow.topup).filter (·.symbol = code) := by
  unfold TapeStore.loadTapeRows
  extract_lets frame size largest
  have same {row : TopupRow} (listed : row ∈ frame) (here : row.symbol = code) :
      row.runId = label := by
    obtain ⟨source, inside, rfl⟩ := mem_map.mp (mem_of_mem_filter listed)
    exact one source inside here
  -- no row of the code is dropped, by its run's name, by its run's size or as not asked for
  rw [filter_code, filter_code, filter_code]
  · rintro row - rfl
    simpa using asked
  · rintro row listed rfl
    refine all_eq_true.mpr fun other inside => ?_
    by_cases together : other.symbol = row.symbol
    · have equal : size other = size row := by
        simp only [size, together, same listed rfl, same inside together]
      simp [equal]
    · simp [together]
  · rintro row listed rfl
    refine all_eq_true.mpr fun other inside => ?_
    by_cases together : other.symbol = row.symbol
    · simp [same (mem_of_mem_filter listed) rfl,
        same (mem_of_mem_filter inside) together]
    · simp [together]

theorem one_label (grown : Grown {} store effects) (uniform : ∀ effect ∈ effects, effect.Uniform)
    (single : chunksFor effects day code = [chunk]) :
    ∀ row ∈ store.dayRows day, zfill 6 row.symbol = code → row.runId = chunk.label := by
  intro row listed here
  obtain ⟨source, held, inside⟩ :=
    mem_flatMap.mp ((day_rows_perm day grown uniform).mem_iff.mp listed)
  obtain ⟨⟨tick, seq⟩, -, rfl⟩ := mem_map.mp inside
  obtain ⟨published, onDay⟩ := mem_filter.mp held
  have among : source ∈ chunksFor effects day code :=
    mem_filter.mpr ⟨published, by simpa using ⟨by simpa using onDay, here⟩⟩
  rw [single] at among
  rw [← mem_singleton.mp among]

/-- Chunks with as many trades as one of them are that one alone. -/
theorem single_of_length {chunks : List DayChunk} (some_ : ∀ chunk ∈ chunks, chunk.ticks ≠ [])
    {chunk : DayChunk} (listed : chunk ∈ chunks)
    (length : (chunks.flatMap DayChunk.trades).length = chunk.ticks.length) : chunks = [chunk] := by
  obtain ⟨front, back, rfl⟩ := append_of_mem listed
  have none : (front ++ back).flatMap DayChunk.trades = [] := by
    have own : chunk.trades.length = chunk.ticks.length := length_map _
    refine eq_nil_of_length_eq_zero ?_
    simp only [flatMap_append, flatMap_cons, length_append] at length ⊢
    omega
  have alone : front ++ back = [] := eq_nil_iff_forall_not_mem.mpr fun other inside =>
    some_ other (by simp at inside ⊢; tauto)
      (map_eq_nil_iff.mp (flatMap_eq_nil_iff.mp none other inside))
  obtain ⟨rfl, rfl⟩ := append_eq_nil_iff.mp alone
  rfl

end Readers

/-! ### Exactly once -/

/-- Whatever other symbols are asked for along with it, the gap-fill reads each of the
vendor's trades of a pair once, and the same trades as the merge. -/
structure ReadOnce (vendor : String → Int → List TapeTick) (store : TapeStore) (symbol : String)
    (day : Int) : Prop where
  vendorTrades : ∀ symbols, symbol ∈ symbols →
    ((store.loadTapeForSymbols day symbols).filter (·.symbol = zfill 6 symbol)).Perm
      ((vendor symbol day).map (tapeTrade (zfill 6 symbol)))
  mergeRows : ∀ symbols covered, symbol ∈ symbols → zfill 6 symbol ∈ covered →
    ((store.loadTapeForSymbols day symbols).filter (·.symbol = zfill 6 symbol)).Perm
      (((store.loadTapeRows day covered).filter (·.symbol = zfill 6 symbol)).map TopupRow.trade)

section Once

variable {vendor : String → Int → List TapeTick} {store : TapeStore} {effects : List TapeEffect}
  {symbol : String} {day : Int}

section

variable (grown : Grown {} store effects) (uniform : ∀ effect ∈ effects, effect.Uniform)
include grown uniform

theorem read_once_of_single (named : symbol ≠ "")
    (single : chunksFor effects day (zfill 6 symbol) = [chunk])
    (trades : chunk.trades = (vendor symbol day).map (tapeTrade (zfill 6 symbol))) :
    ReadOnce vendor store symbol day := by
  have loaded (symbols : List String) (asked : symbol ∈ symbols) :
      ((store.loadTapeForSymbols day symbols).filter (·.symbol = zfill 6 symbol)).Perm
        chunk.trades := by
    simpa [single] using load_perm day grown uniform asked named
  refine ⟨fun symbols asked => trades ▸ loaded symbols asked, fun symbols covered asked among => ?_⟩
  have merged : ((store.loadTapeRows day covered).filter (·.symbol = zfill 6 symbol)).map
      TopupRow.trade =
        ((store.dayRows day).map PartitionRow.trade).filter (·.symbol = zfill 6 symbol) := by
    rw [load_rows_of_one among (one_label grown uniform single), filter_map, map_map,
      filter_map]
    rfl
  refine (loaded symbols asked).trans (merged ▸ List.Perm.symm ?_)
  simpa [single] using day_trades_perm day (zfill 6 symbol) grown uniform

/-- One chunk is all there is under the code exactly when the pair is read once. -/
theorem read_once_iff_single (whole : ∀ chunk ∈ chunksOf effects,
      chunk.ticks = vendor chunk.symbol chunk.day ∧ chunk.ticks ≠ []) (named : symbol ≠ "")
    (published : chunk ∈ chunksOf effects) (pair : chunk.pair = (symbol, day)) :
    ReadOnce vendor store symbol day ↔ chunksFor effects day (zfill 6 symbol) = [chunk] := by
  obtain ⟨rfl, rfl⟩ := Prod.mk.inj pair
  have trades : chunk.trades = (vendor chunk.symbol chunk.day).map (tapeTrade (zfill 6 chunk.symbol)) := by
    rw [DayChunk.trades, (whole chunk published).1]
  constructor
  · intro once
    have loaded := load_perm chunk.day grown uniform (mem_singleton_self chunk.symbol) named
    have vendors := once.vendorTrades [chunk.symbol] (mem_singleton_self _)
    have length : ((chunksFor effects chunk.day (zfill 6 chunk.symbol)).flatMap
        DayChunk.trades).length = chunk.ticks.length := by
      rw [← loaded.length_eq, vendors.length_eq, length_map, (whole chunk published).1]
    exact single_of_length (fun other inside => (whole other (mem_of_mem_filter inside)).2)
      (mem_filter.mpr ⟨published, by simp⟩) length
  · exact fun single => read_once_of_single grown uniform named single trades

end

end Once

theorem Chronicle.whole
    (chronicle : Chronicle vendor ledger histories) :
    (∀ effect ∈ histories.flatten, effect.Uniform) ∧ ∀ chunk ∈ chunksOf histories.flatten,
      chunk.symbol ≠ "" ∧ chunk.ticks = vendor chunk.symbol chunk.day ∧ chunk.ticks ≠ [] := by
  constructor
  · intro effect member
    obtain ⟨history, listed, inside⟩ := mem_flatten.mp member
    obtain ⟨known, -, lawful⟩ := chronicle.lawful listed
    exact lawful.uniform effect inside
  · intro chunk member
    obtain ⟨history, listed, inside⟩ := mem_chunks_flatten.mp member
    obtain ⟨known, -, lawful⟩ := chronicle.lawful listed
    exact ⟨lawful.named chunk inside, lawful.whole chunk inside⟩

section Codes

variable {histories : List (List TapeEffect)} {symbol : String} {day : Int}

/-- Publications of a pair are chunks under its code. -/
theorem publications_le_chunks (histories : List (List TapeEffect)) (symbol : String) (day : Int) :
    publications histories (symbol, day) ≤
      (chunksFor histories.flatten day (zfill 6 symbol)).length := by
  rw [publications, count, countP_map, chunksFor, ← countP_eq_length_filter]
  refine countP_mono_left fun chunk _ same => ?_
  obtain ⟨rfl, rfl⟩ := Prod.mk.inj (beq_iff_eq.mp same)
  simp

/-- With the code to itself, a pair's publications are all the chunks under it. -/
theorem chunks_le_publications
    (alone : ∀ history ∈ histories, ∀ other, Publishes history (other, day) →
      zfill 6 other = zfill 6 symbol → other = symbol) :
    (chunksFor histories.flatten day (zfill 6 symbol)).length ≤
      publications histories (symbol, day) := by
  rw [publications, count, countP_map, chunksFor, ← countP_eq_length_filter]
  refine countP_mono_left fun chunk member same => ?_
  obtain ⟨rfl, code⟩ := of_decide_eq_true same
  obtain ⟨history, listed, held⟩ := mem_chunks_flatten.mp member
  have published : Publishes history (chunk.symbol, chunk.day) :=
    mem_map.mpr ⟨chunk, held, rfl⟩
  rw [← alone history listed chunk.symbol published code]
  simp [DayChunk.pair]

end Codes

theorem completes_of_ledger {histories : List (List TapeEffect)}
    (grown : Grown {} store histories.flatten)
    (complete : ∃ record ∈ store.ledger, record.status = .complete ∧
      (record.symbol, record.date) = pair) : ∃ history ∈ histories, Completes history pair := by
  obtain ⟨record, listed, settled⟩ := complete
  rw [grown.lines] at listed
  obtain ⟨effect, inside, line⟩ := mem_filterMap.mp listed
  obtain ⟨history, among, within⟩ := mem_flatten.mp inside
  refine ⟨history, among, effect, within, ?_⟩
  cases effect with
  | marker runId => cases line
  | publish day label chunks => cases line
  | record known =>
    cases line
    exact settled

/-- The vendor's tapes being fixed, over any sequence of runs, each cut off anywhere: a pair
the ledger has as complete is read exactly once precisely when every run that published it
also recorded it, and no other symbol with its six-digit code was published for the day. -/
theorem tape_read_once_iff {vendor : String → Int → List TapeTick} {runs : List TapeRun}
    (fixed : ∀ run ∈ runs, run.Serves vendor run.plan.targets) {symbol : String} {day : Int}
    (complete : ∃ record ∈ (TapeStore.backfills {} runs).1.ledger, record.status = .complete ∧
      (record.symbol, record.date) = (symbol, day)) :
    ReadOnce vendor (TapeStore.backfills {} runs).1 symbol day ↔
      (∀ history ∈ (TapeStore.backfills {} runs).2,
        Publishes history (symbol, day) → Completes history (symbol, day)) ∧
      ∀ history ∈ (TapeStore.backfills {} runs).2, ∀ other, Publishes history (other, day) →
        zfill 6 other = zfill 6 symbol → other = symbol := by
  obtain ⟨chronicle, grown⟩ := backfills_chronicle fixed {}
  obtain ⟨uniform, whole⟩ := chronicle.whole
  obtain ⟨recorder, among, completes⟩ := completes_of_ledger grown complete
  have published := publishes_of_completes chronicle among completes
  obtain ⟨chunk, held, pair⟩ := mem_map.mp published
  have inside := mem_chunks_flatten.mpr ⟨recorder, among, held⟩
  have named : symbol ≠ "" := (Prod.mk.inj pair).1 ▸ (whole chunk inside).1
  rw [read_once_iff_single grown uniform (fun other member => (whole other member).2) named inside
    pair]
  constructor
  · intro single
    have once : publications (TapeStore.backfills {} runs).2 (symbol, day) ≤ 1 := by
      simpa [single] using publications_le_chunks (TapeStore.backfills {} runs).2 symbol day
    refine ⟨recorded_of_once chronicle ⟨recorder, among, completes⟩ once, ?_⟩
    intro history listed other publishes code
    obtain ⟨found, member, same⟩ := mem_map.mp publishes
    obtain ⟨rfl, rfl⟩ := Prod.mk.inj same
    have under : found ∈ chunksFor (TapeStore.backfills {} runs).2.flatten found.day
        (zfill 6 symbol) :=
      mem_filter.mpr ⟨mem_chunks_flatten.mpr ⟨history, listed, member⟩, by simpa using code⟩
    rw [single, mem_singleton] at under
    rw [under]
    exact (Prod.mk.inj pair).1
  · rintro ⟨recorded, alone⟩
    have most := (chunks_le_publications alone).trans (publications_le_one chronicle recorded)
    have under : chunk ∈ chunksFor (TapeStore.backfills {} runs).2.flatten day (zfill 6 symbol) := by
      obtain ⟨rfl, rfl⟩ := Prod.mk.inj pair
      exact mem_filter.mpr ⟨inside, by simp⟩
    obtain ⟨only, shape⟩ := length_eq_one_iff.mp
      (le_antisymm most (length_pos_of_mem under))
    rw [shape, mem_singleton] at under
    rw [shape, under]

namespace Sample

/-- Two trades of one day and one of the day before, newest first. -/
def tape : List TapeTick := [⟨10, 90001, 71100, 5⟩, ⟨10, 90000, 71000, 3⟩, ⟨9, 152000, 70900, 1⟩]

def tapeVendor (_ : String) (day : Int) : List TapeTick := (tape.filter (·.day = day)).reverse

def tapePlan : TapePlan where
  targets := [{ symbol := "005930", days := [10] }]
  distinct := by decide
  named := by decide
  daysDistinct := by decide

/-- A run that reads the tape on one page, cut off or not. -/
def tapeRun (runId : String) (durable : Option Nat) : TapeRun :=
  { runId, plan := tapePlan, visit := fun _ _ => { fetches := [.page { ticks := tape }] }, durable }

/-- The first run is cut off with the day's file published and nothing in the ledger. -/
def cutThenWhole : List TapeRun := [tapeRun "a" (some 2), tapeRun "b" none]

theorem tape_runs_serve (runId : String) (durable : Option Nat) :
    (tapeRun runId durable).Serves tapeVendor (tapeRun runId durable).plan.targets := by
  intro target listed pass
  exact ⟨tape, by unfold NewestFirst; decide, prefix_refl _, fun _ _ => rfl⟩

end Sample

open Sample in
theorem tape_read_once_iff_whole_run :
    ReadOnce tapeVendor (TapeStore.backfills {} [tapeRun "b" none]).1 "005930" 10 := by
  have histories : (TapeStore.backfills {} [tapeRun "b" none]).2 =
      [[.marker "b",
        .publish 10 "b" [⟨"005930", 10, [⟨10, 90000, 71000, 3⟩, ⟨10, 90001, 71100, 5⟩], "b"⟩],
        .record { date := 10, symbol := "005930", status := .complete, rows := 2, runId := "b",
                  tier := .gap }]] := by
    decide +kernel
  have complete : ∃ record ∈ (TapeStore.backfills {} [tapeRun "b" none]).1.ledger,
      record.status = .complete ∧ (record.symbol, record.date) = ("005930", 10) := by
    decide +kernel
  refine (tape_read_once_iff (fun run listed => ?_) complete).mpr ⟨?_, ?_⟩
  · obtain rfl := mem_singleton.mp listed
    exact tape_runs_serve "b" none
  · rw [histories]
    intro history listed _
    obtain rfl := mem_singleton.mp listed
    exact ⟨_, mem_cons_of_mem _ (mem_cons_of_mem _ mem_cons_self), rfl, rfl⟩
  · rw [histories]
    intro history listed other published _
    obtain rfl := mem_singleton.mp listed
    exact congrArg Prod.fst (mem_singleton.mp published)

open Sample in
/-- After a run that was cut off between publishing and recording, and another that came
through, the gap-fill reads every trade of the complete pair twice; the merge does not. -/
theorem republished_day_read_twice :
    (∀ run ∈ cutThenWhole, run.Serves tapeVendor run.plan.targets) ∧
    (∃ record ∈ (TapeStore.backfills {} cutThenWhole).1.ledger, record.status = .complete ∧
      (record.symbol, record.date) = ("005930", 10)) ∧
    (TapeStore.backfills {} cutThenWhole).1.loadTapeForSymbols 10 ["005930"] =
      [⟨"005930", 90000, 71000, 3⟩, ⟨"005930", 90001, 71100, 5⟩,
        ⟨"005930", 90000, 71000, 3⟩, ⟨"005930", 90001, 71100, 5⟩] ∧
    ((TapeStore.backfills {} cutThenWhole).1.loadTapeRows 10 ["005930"]).map TopupRow.trade =
      [⟨"005930", 90000, 71000, 3⟩, ⟨"005930", 90001, 71100, 5⟩] := by
  refine ⟨fun run listed => ?_, by decide +kernel, by decide +kernel, by decide +kernel⟩
  simp only [cutThenWhole, mem_cons, not_mem_nil, or_false] at listed
  rcases listed with rfl | rfl
  · exact tape_runs_serve "a" (some 2)
  · exact tape_runs_serve "b" none

end KrxAlpha
