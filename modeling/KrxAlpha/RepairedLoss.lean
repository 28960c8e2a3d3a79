import KrxAlpha.GapfillBookkeeping
import KrxAlpha.LossConservation
import Mathlib.Tactic.NormNum

/-! The verdict on a repaired day. The loss that remains is judged per symbol, as the
audit's confirmed loss less what the gap-fill recovered in the symbol's confirmed
intervals. The loss counts the regular session only, the intervals are those of every
market phase. -/
namespace KrxAlpha
open List

/-- The loss thresholds of the audit settings. -/
structure LossThresholds where
  lossWarnRatio : Rat := 1 / 10000
  lossFailRatio : Rat := 5 / 1000
  symbolLossFailRatio : Rat := 5 / 100
  symbolMinTrades : Int := 100
  ordered : lossWarnRatio < lossFailRatio := by norm_num

inductive RepairVerdict where
  | pass | warn | fail
  deriving DecidableEq

structure RepairedLossVerdict where
  status : RepairVerdict
  residualConfirmed : Int
  tradesObserved : Int
  ratio : Rat
  reasons : List String

def intervalToJsonable (interval : LossInterval) : AuditInterval :=
  { phase := interval.phase
    kind := interval.kind
    missingTrades := interval.missingTrades
    volumeDeficit := interval.volumeDeficit
    cumPrev := interval.cumPrev
    cumNext := interval.cumNext
    chetimePrev := some interval.chetimePrev
    chetimeNext := some interval.chetimeNext
    acmlPrev := interval.acmlPrev
    acmlNextBefore := interval.acmlNextBefore }

/-- The document the auditor writes of its ledgers. -/
def auditToJsonable (audit : List SymbolLedger × LedgerTotals) : AuditDocument :=
  { symbols := audit.1.map fun entry =>
      { symbol := entry.symbol
        status := entry.status
        tradesObserved := entry.tradesObserved
        confirmedMissing := entry.confirmedMissing
        intervals := entry.intervals.map intervalToJsonable }
    tradesObserved := audit.2.tradesObserved }

theorem jsonable_audited : (intervalToJsonable interval).Audited ↔ 0 < interval.missingTrades := by
  simp [AuditInterval.Audited, intervalToJsonable]

structure SymbolLoss where
  status : LedgerStatus
  trades : Int
  confirmed : Int

/-- The ledgers by six-digit symbol; a later ledger of the same symbol replaces the
earlier one. -/
def lossBySymbol (ledgers : List AuditEntry) : Dict String SymbolLoss :=
  Dict.ofList ((ledgers.filter (·.symbol ≠ "")).map fun ledger =>
    (zfill 6 ledger.symbol,
      ⟨ledger.status, max 0 ledger.tradesObserved, max 0 ledger.confirmedMissing⟩))

def outcomesById (outcomes : List GapfillInterval) : Dict Nat GapfillInterval :=
  Dict.ofList (outcomes.map fun outcome => (outcome.intervalId, outcome))

/-- What an interval's outcome takes off its symbol's loss, whatever its phase. -/
def creditOf (byId : Dict Nat GapfillInterval) (item : AuditItem) : Option Int :=
  if item.interval.kind ≠ .confirmed then none
  else match byId.get? item.id with
    | none => none
    | some outcome =>
      if zfill 6 outcome.symbol ≠ item.symbol then none
      else if outcome.recovered ≤ 0 then none
      else some (min outcome.recovered item.interval.missingTrades)

def addCredit (byId : Dict Nat GapfillInterval) (bySymbol : Dict String Int) (item : AuditItem) :
    Dict String Int :=
  match creditOf byId item with
  | none => bySymbol
  | some credit => bySymbol.set item.symbol ((bySymbol.get? item.symbol).getD 0 + credit)

def recoveredBySymbol (info : Dict String SymbolLoss) (items : List AuditItem)
    (outcomes : List GapfillInterval) : Dict String Int :=
  items.foldl (addCredit (outcomesById outcomes)) (Dict.ofList (info.keys.map (·, 0)))

/-- The loss left of each symbol. -/
def residualBySymbol (audit : AuditDocument) (outcomes : List GapfillInterval) :
    List (String × SymbolLoss × Int) :=
  let info := lossBySymbol audit.symbols
  let recovered := recoveredBySymbol info (indexedAuditIntervals audit.symbols) outcomes
  info.entries.map fun (symbol, loss) =>
    (symbol, loss, max 0 (loss.confirmed - (recovered.get? symbol).getD 0))

/-- The symbols beyond the per-symbol limit, the worst first. -/
def breachingSymbols (thresholds : LossThresholds) (residuals : List (String × SymbolLoss × Int)) :
    List (String × Int × Int) :=
  let breaching := residuals.filterMap fun (symbol, loss, residual) =>
    if loss.status = .ok ∧ thresholds.symbolMinTrades ≤ loss.trades ∧ 0 < loss.trades ∧
        thresholds.symbolLossFailRatio < (residual : Rat) / loss.trades then
      some (symbol, residual, loss.trades)
    else none
  breaching.insertionSort fun first second =>
    (second.2.1 : Rat) / second.2.2 < (first.2.1 : Rat) / first.2.2 ∨
      ((second.2.1 : Rat) / second.2.2 = (first.2.1 : Rat) / first.2.2 ∧ second.2.1 ≤ first.2.1)

def evaluateRepairedLoss (audit : AuditDocument) (outcomes : List GapfillInterval)
    (thresholds : LossThresholds) : RepairedLossVerdict :=
  let trades := max 0 audit.tradesObserved
  let residuals := residualBySymbol audit outcomes
  let residual := (residuals.map (·.2.2)).sum
  let share := toString residual ++ "/" ++ toString trades
  if trades = 0 then ⟨.pass, residual, 0, 0, []⟩
  else
    let ratio : Rat := residual / trades
    let exceeded :=
      if thresholds.lossFailRatio < ratio then ["residual_loss_exceeded:" ++ share] else []
    let breached :=
      match breachingSymbols thresholds residuals with
      | [] => []
      | (worst, worstResidual, worstTrades) :: others =>
        ["residual_symbol_loss_exceeded:" ++ worst ++ ":" ++ toString worstResidual ++ "/" ++
          toString worstTrades ++ if others = [] then "" else "+" ++ toString others.length]
    if exceeded ++ breached ≠ [] then ⟨.fail, residual, trades, ratio, exceeded ++ breached⟩
    else if thresholds.lossWarnRatio < ratio then
      ⟨.warn, residual, trades, ratio, ["residual_loss_warn:" ++ share]⟩
    else ⟨.pass, residual, trades, ratio, []⟩

theorem residual_confirmed_eq (audit : AuditDocument) (outcomes : List GapfillInterval)
    (thresholds : LossThresholds) :
    (evaluateRepairedLoss audit outcomes thresholds).residualConfirmed =
      ((residualBySymbol audit outcomes).map (·.2.2)).sum := by
  simp only [evaluateRepairedLoss]
  split_ifs <;> rfl

/-- The trades the outcomes recover in an interval. -/
def recoveredIn (outcomes : List GapfillInterval) (item : AuditItem) : Int :=
  match (outcomesById outcomes).get? item.id with
  | some outcome => if zfill 6 outcome.symbol = item.symbol then outcome.recovered else 0
  | none => 0

/-- The trades recovered in the symbol's confirmed intervals of some phases. -/
def recoveredConfirmed (audit : AuditDocument) (outcomes : List GapfillInterval)
    (phases : MarketPhase → Bool) (symbol : String) : Int :=
  (((indexedAuditIntervals audit.symbols).filter (·.symbol = symbol)).map fun item =>
    if item.interval.kind = .confirmed ∧ phases item.interval.phase then recoveredIn outcomes item
    else 0).sum

/-- Outcomes that recover no more trades than their interval misses. -/
def WithinMissing (audit : AuditDocument) (outcomes : List GapfillInterval) : Prop :=
  ∀ outcome ∈ outcomes, 0 ≤ outcome.recovered ∧
    ∀ item ∈ indexedAuditIntervals audit.symbols, item.id = outcome.intervalId →
      outcome.recovered ≤ item.interval.missingTrades

section Credits

variable {audit : AuditDocument} {outcomes : List GapfillInterval}

section

variable (within : WithinMissing audit outcomes)
  (listed : item ∈ indexedAuditIntervals audit.symbols)
include within listed

theorem recovered_in_bounds :
    0 ≤ recoveredIn outcomes item ∧ recoveredIn outcomes item ≤ item.interval.missingTrades := by
  have missing := (indexed_audited listed).1.le
  unfold recoveredIn
  cases found : (outcomesById outcomes).get? item.id with
  | none => exact ⟨le_rfl, missing⟩
  | some outcome =>
    obtain ⟨source, member, same⟩ := mem_map.mp (Dict.mem_of_ofList found)
    obtain ⟨id, rfl⟩ := Prod.mk.inj same
    obtain ⟨nonneg, bounded⟩ := within source member
    dsimp only
    split
    · exact ⟨nonneg, bounded item listed id.symm⟩
    · exact ⟨le_rfl, missing⟩

/-- A confirmed interval's credit is what was recovered in it. -/
theorem credit_eq :
    (creditOf (outcomesById outcomes) item).getD 0 =
      if item.interval.kind = .confirmed then recoveredIn outcomes item else 0 := by
  have bounds := recovered_in_bounds within listed
  unfold recoveredIn at bounds
  unfold creditOf recoveredIn
  by_cases confirmed : item.interval.kind = .confirmed
  · cases found : (outcomesById outcomes).get? item.id with
    | none => simp [confirmed]
    | some outcome =>
      by_cases same : zfill 6 outcome.symbol = item.symbol
      · simp only [found, same, ↓reduceIte] at bounds
        by_cases positive : outcome.recovered ≤ 0
        · simp [same, le_antisymm positive bounds.1]
        · simp [confirmed, same, positive, bounds.2]
      · simp [same]
  · simp [confirmed]

end

theorem add_credit_get? (byId : Dict Nat GapfillInterval) (bySymbol : Dict String Int)
    (item : AuditItem) (symbol : String) :
    ((addCredit byId bySymbol item).get? symbol).getD 0 =
      (bySymbol.get? symbol).getD 0 + if item.symbol = symbol then (creditOf byId item).getD 0 else 0 := by
  unfold addCredit
  cases creditOf byId item with
  | none => simp
  | some credit =>
    simp only [Dict.get?_set, eq_comm (a := symbol)]
    split
    · rename_i same
      simp [same]
    · simp

theorem recovered_by_symbol_get? (info : Dict String SymbolLoss) (items : List AuditItem)
    (symbol : String) :
    ((recoveredBySymbol info items outcomes).get? symbol).getD 0 =
      ((items.filter (·.symbol = symbol)).map fun item =>
        (creditOf (outcomesById outcomes) item).getD 0).sum := by
  have start : ((Dict.ofList (info.keys.map (·, (0 : Int)))).get? symbol).getD 0 = 0 := by
    cases found : (Dict.ofList (info.keys.map (·, (0 : Int)))).get? symbol with
    | none => rfl
    | some value =>
      obtain ⟨key, -, same⟩ := mem_map.mp (Dict.mem_of_ofList found)
      cases same
      rfl
  have run : ∀ (items : List AuditItem) (bySymbol : Dict String Int),
      ((items.foldl (addCredit (outcomesById outcomes)) bySymbol).get? symbol).getD 0 =
        (bySymbol.get? symbol).getD 0 + ((items.filter (·.symbol = symbol)).map fun item =>
          (creditOf (outcomesById outcomes) item).getD 0).sum := by
    intro items
    induction items with
    | nil => simp
    | cons item rest ih =>
      intro bySymbol
      rw [foldl_cons, ih, add_credit_get?]
      by_cases same : item.symbol = symbol
      · simp [same, add_assoc]
      · simp [same]
  rw [recoveredBySymbol, run, start, zero_add]

/-- What is taken off a symbol's loss: the trades recovered in the regular session and
those recovered in the other phases. -/
theorem credited_eq (within : WithinMissing audit outcomes) (info : Dict String SymbolLoss)
    (symbol : String) :
    ((recoveredBySymbol info (indexedAuditIntervals audit.symbols) outcomes).get? symbol).getD 0 =
      recoveredConfirmed audit outcomes (· = .regular) symbol +
        recoveredConfirmed audit outcomes (· ≠ .regular) symbol := by
  rw [recovered_by_symbol_get?, recoveredConfirmed, recoveredConfirmed, ← sum_map_add]
  refine congrArg _ (map_congr_left fun item kept => ?_)
  rw [credit_eq within (mem_of_mem_filter kept)]
  by_cases confirmed : item.interval.kind = .confirmed <;>
    by_cases regular : item.interval.phase = .regular <;> simp [confirmed, regular]

theorem recovered_confirmed_nonneg (within : WithinMissing audit outcomes)
    (phases : MarketPhase → Bool) (symbol : String) :
    0 ≤ recoveredConfirmed audit outcomes phases symbol := by
  refine sum_nonneg fun amount listed => ?_
  obtain ⟨item, kept, rfl⟩ := mem_map.mp listed
  have bounds := recovered_in_bounds within (mem_of_mem_filter kept)
  split <;> omega

end Credits

/-- Over distinct symbols, the audited intervals of one symbol are those of its ledger. -/
theorem ledger_items_sum (measure : AuditInterval → Int)
    (distinct : (ledgers.map fun ledger => zfill 6 ledger.symbol).Nodup)
    (listed : ledger ∈ ledgers) :
    (((indexedAuditIntervals ledgers).filter (·.symbol = zfill 6 ledger.symbol)).map
      (measure ·.interval)).sum = ((ledger.intervals.filter (·.Audited)).map measure).sum := by
  have unindexed : ((indexedAuditIntervals ledgers).filter (·.symbol = zfill 6 ledger.symbol)).map
      (measure ·.interval) =
      ((auditIntervals ledgers).filter (·.1 = zfill 6 ledger.symbol)).map (measure ·.2) := by
    conv_rhs => rw [← zipIdx_map_fst 0 (auditIntervals ledgers), filter_map, map_map]
    rw [indexedAuditIntervals, filter_map, map_map]
    rfl
  have own : (auditIntervals ledgers).filter (·.1 = zfill 6 ledger.symbol) =
      (ledger.intervals.filter (·.Audited)).map (zfill 6 ledger.symbol, ·) := by
    refine filter_flatMap_own distinct listed fun other pair member => ?_
    obtain ⟨interval, -, rfl⟩ := mem_map.mp member
    rfl
  rw [unindexed, own, map_map]
  rfl

/-- The trades an interval misses that the ledger's confirmed loss counts. -/
def AuditInterval.regularMissing (interval : AuditInterval) : Int :=
  if interval.kind = .confirmed ∧ interval.phase = .regular then interval.missingTrades else 0

def LossInterval.regularMissing (interval : LossInterval) : Int :=
  (intervalToJsonable interval).regularMissing

theorem regular_missing_of_phase {interval : LossInterval} (phased : interval.phase = phase) :
    interval.regularMissing = if phase = .regular then interval.missingAs .confirmed else 0 := by
  subst phased
  by_cases confirmed : interval.kind = .confirmed <;>
    by_cases regular : interval.phase = .regular <;>
    simp [LossInterval.regularMissing, AuditInterval.regularMissing, intervalToJsonable,
      LossInterval.missingAs, regular]

theorem LossInterval.Bounded.regular_nonneg {interval : LossInterval} (bounded : interval.Bounded) :
    0 ≤ interval.regularMissing := by
  have nonneg := bounded.missingAs_nonneg .confirmed
  rw [regular_missing_of_phase rfl]
  split <;> omega

/-- The confirmed loss of the regular segments covers their intervals. -/
theorem regular_missing_le {segments : List Segment}
    (sound : ∀ segment ∈ segments, ∃ stalled, segment.Sound stalled) :
    ((segments.flatMap (·.intervals)).map (·.regularMissing)).sum ≤
      ((segments.filter (·.phase = .regular)).map (·.confirmed)).sum := by
  induction segments with
  | nil => rfl
  | cons segment rest ih =>
    obtain ⟨⟨stalled, here⟩, others⟩ := forall_mem_cons.mp sound
    have later := ih others
    have own : segment.intervals.map (·.regularMissing) = segment.intervals.map fun interval =>
        if segment.phase = .regular then interval.missingAs .confirmed else 0 :=
      map_congr_left fun interval member =>
        regular_missing_of_phase (here.phased interval member)
    rw [flatMap_cons, map_append, sum_append, own]
    by_cases regular : segment.phase = .regular
    · have covered : (segment.intervals.map (·.missingAs .confirmed)).sum ≤ segment.confirmed :=
        here.booked .confirmed
      simp only [regular, ↓reduceIte, decide_true, filter_cons_of_pos, map_cons,
        sum_cons]
      omega
    · simpa [regular] using later

section Ledger

variable (auditor : Auditor) {state : SymbolState}

theorem ledger_intervals_bounded (sound : state.Sound) (symbol : String) :
    ∀ interval ∈ (auditor.symbolLedger symbol state).intervals, interval.Bounded := by
  intro interval listed
  obtain ⟨segment, held, inside⟩ := mem_flatMap.mp (mem_retain listed)
  obtain ⟨phase, found⟩ := Dict.mem_values_iff.mp held
  obtain ⟨-, stalled, kept⟩ := sound phase segment found
  exact kept.bounded interval inside

/-- A ledger's confirmed loss covers the regular confirmed intervals it lists. -/
theorem ledger_regular_le (sound : state.Sound) (symbol : String) :
    ((auditor.symbolLedger symbol state).intervals.map (·.regularMissing)).sum ≤
      (auditor.symbolLedger symbol state).confirmedMissing := by
  have every : ∀ segment ∈ state.segments.values, ∃ stalled, segment.Sound stalled := by
    intro segment member
    obtain ⟨phase, held⟩ := Dict.mem_values_iff.mp member
    exact (sound phase segment held).2
  refine le_trans (retain_sum_le _ fun interval member => ?_) (regular_missing_le every)
  obtain ⟨segment, held, inside⟩ := mem_flatMap.mp member
  obtain ⟨stalled, kept⟩ := every segment held
  exact (kept.bounded interval inside).regular_nonneg

end Ledger

section Named

variable {auditor : Auditor} {derivation : Derivation}

/-- Nothing is booked under the empty symbol. -/
def Derivation.Named (derivation : Derivation) : Prop := derivation.symbols.get? "" = none

theorem Derivation.Named.setSymbol (named : derivation.Named) (known : symbol ≠ "")
    (state : SymbolState) : (derivation.setSymbol symbol state).Named := by
  rw [Derivation.Named, Derivation.setSymbol, Dict.get?_set_of_ne (Ne.symm known)]
  exact named

theorem filtered_ne {shcode : Option String}
    (known : shcode.filter (· ≠ "") = some symbol) : symbol ≠ "" := by
  simpa using (Option.filter_eq_some_iff.mp known).2

theorem decode_tick_known (decoded : decodeTick record body = some tick) : tick.symbol ≠ "" := by
  simp only [decodeTick, Option.bind_eq_bind, Option.bind_eq_some_iff, Option.pure_def,
    Option.some.injEq] at decoded
  obtain ⟨symbol, known, _, -, _, -, _, -, _, -, rfl⟩ := decoded
  exact filtered_ne known

theorem uncounted_tick_known
    (decoded : uncountedTick body = some (symbol, chetime)) : symbol ≠ "" := by
  simp only [uncountedTick, Option.bind_eq_bind, Option.bind_eq_some_iff] at decoded
  obtain ⟨_, known, _, -, _, -, _, -, rfl, -⟩ := decoded
  exact filtered_ne known

theorem booked_symbol_known (booked : bookedSymbol record body = some symbol) : symbol ≠ "" := by
  unfold bookedSymbol at booked
  split at booked
  · rename_i known
    cases booked
    exact filtered_ne known
  · split at booked
    · cases booked
    · rename_i known
      cases booked
      exact known

theorem accept_tick_named (named : derivation.Named) (record : Envelope) (body : TickBody) :
    (auditor.acceptTick derivation record body).Named := by
  unfold Auditor.acceptTick
  split
  · rename_i decoded
    rw [Derivation.Named, note_regular_tick_symbols]
    exact named.setSymbol (uncounted_tick_known decoded) _
  · split
    · exact named
    · rename_i booked
      exact named.setSymbol (booked_symbol_known booked) _
  · rename_i decoded _
    have noted (phase : MarketPhase) : (derivation.noteRegularTick phase record).Named := by
      rwa [Derivation.Named, note_regular_tick_symbols]
    simp only
    split_ifs
    · exact (noted _).setSymbol (decode_tick_known decoded) _
    · refine Derivation.Named.setSymbol ?_ (decode_tick_known decoded) _
      rw [Derivation.Named, note_sequence_symbols]
      exact noted _

theorem derive_named (auditor : Auditor) (inputs : List (Envelope × TickBody)) :
    (auditor.derive inputs).Named := by
  refine foldlRecOn inputs auditor.processRecord rfl ?_
  intro derivation named input _
  rw [Derivation.Named, Auditor.processRecord, note_sequence_symbols]
  exact accept_tick_named named input.1 input.2

end Named

/-- The document of a session: what `finalize_ledger` makes of the records. -/
def Auditor.document (auditor : Auditor) (inputs : List (Envelope × TickBody)) : AuditDocument :=
  auditToJsonable (auditor.finalizeLedger (auditor.derive inputs))

/-- The document has both times of every interval, so the audited intervals are all those that miss
trades. -/
theorem document_timed (auditor : Auditor) (inputs : List (Envelope × TickBody)) :
    (auditor.document inputs).Timed ∧
      (auditIntervals (auditor.document inputs).symbols).length =
        (auditor.document inputs).positiveMissing.length := by
  have timed : (auditor.document inputs).Timed := by
    intro ledger listed interval inside _
    obtain ⟨entry, -, rfl⟩ := mem_map.mp listed
    obtain ⟨source, -, rfl⟩ := mem_map.mp inside
    exact ⟨rfl, rfl⟩
  exact ⟨timed, timed_positive timed⟩

/-- The symbols stay apart under their six-digit form. -/
def AuditDocument.Distinct (audit : AuditDocument) : Prop :=
  (audit.symbols.map fun ledger => zfill 6 ledger.symbol).Nodup

section Residual

variable {auditor : Auditor} {inputs : List (Envelope × TickBody)} {outcomes : List GapfillInterval}

theorem document_ledger {ledger : AuditEntry} (listed : ledger ∈ (auditor.document inputs).symbols) :
    ledger.symbol ≠ "" ∧ 0 ≤ ledger.confirmedMissing ∧
      ((ledger.intervals.filter (·.Audited)).map (·.regularMissing)).sum ≤ ledger.confirmedMissing := by
  obtain ⟨entry, member, rfl⟩ := mem_map.mp listed
  obtain ⟨symbol, key, rfl⟩ := mem_map.mp member
  have sound := (derive_sound auditor inputs).symbolState symbol
  have bounded := ledger_intervals_bounded auditor sound symbol
  have covered := ledger_regular_le auditor sound symbol
  have known : symbol ∈ (auditor.derive inputs).symbols.keys := (mem_insertionSort _).mp key
  refine ⟨fun empty => ?_, le_trans (sum_nonneg fun amount inside => ?_) covered, ?_⟩
  · exact Dict.get?_eq_none.mp (derive_named auditor inputs) (empty ▸ known)
  · obtain ⟨interval, kept, rfl⟩ := mem_map.mp inside
    exact (bounded interval kept).regular_nonneg
  · have everyone : ((auditor.symbolLedger symbol
        ((auditor.derive inputs).symbolState symbol)).intervals.map intervalToJsonable).filter
          (·.Audited) = (auditor.symbolLedger symbol
            ((auditor.derive inputs).symbolState symbol)).intervals.map intervalToJsonable := by
      refine filter_eq_self.mpr fun interval inside => ?_
      obtain ⟨source, kept, rfl⟩ := mem_map.mp inside
      exact decide_eq_true (jsonable_audited.mpr (Int.one_pos.trans_le (bounded source kept).missing))
    rw [everyone, map_map]
    exact covered

theorem residual_sum_eq (distinct : audit.Distinct)
    (named : ∀ ledger ∈ audit.symbols, ledger.symbol ≠ "" ∧ 0 ≤ ledger.confirmedMissing)
    (within : WithinMissing audit outcomes) (thresholds : LossThresholds) :
    (evaluateRepairedLoss audit outcomes thresholds).residualConfirmed =
      (audit.symbols.map fun ledger => max 0 (ledger.confirmedMissing -
        (recoveredConfirmed audit outcomes (· = .regular) (zfill 6 ledger.symbol) +
          recoveredConfirmed audit outcomes (· ≠ .regular) (zfill 6 ledger.symbol)))).sum := by
  have everyone : audit.symbols.filter (·.symbol ≠ "") = audit.symbols :=
    filter_eq_self.mpr fun ledger listed => by simpa using (named ledger listed).1
  have entries : (lossBySymbol audit.symbols).entries = audit.symbols.map fun ledger =>
      (zfill 6 ledger.symbol,
        ⟨ledger.status, max 0 ledger.tradesObserved, max 0 ledger.confirmedMissing⟩) := by
    rw [lossBySymbol, everyone]
    refine Dict.entries_ofList ?_
    rw [map_map]
    exact distinct
  rw [residual_confirmed_eq, residualBySymbol, entries, map_map, map_map]
  refine congrArg _ (map_congr_left fun ledger listed => ?_)
  simp only [Function.comp_apply, credited_eq within, max_eq_right (named ledger listed).2]

theorem regular_recovered_le (distinct : (auditor.document inputs).Distinct)
    (within : WithinMissing (auditor.document inputs) outcomes)
    (listed : ledger ∈ (auditor.document inputs).symbols) :
    recoveredConfirmed (auditor.document inputs) outcomes (· = .regular) (zfill 6 ledger.symbol) ≤
      ledger.confirmedMissing := by
  obtain ⟨-, -, covered⟩ := document_ledger listed
  refine le_trans ?_ ((ledger_items_sum _ distinct listed).trans_le covered)
  refine sum_le_sum fun item kept => ?_
  have bounds := recovered_in_bounds within (mem_of_mem_filter kept)
  simp only [AuditInterval.regularMissing, decide_eq_true_eq]
  split <;> omega

end Residual

private theorem sum_le_iff_eq {items : List α} {less more : α → Int}
    (below : ∀ item ∈ items, less item ≤ more item) :
    (items.map more).sum ≤ (items.map less).sum ↔ ∀ item ∈ items, less item = more item := by
  induction items with
  | nil => simp
  | cons item rest ih =>
    obtain ⟨here, others⟩ := forall_mem_cons.mp below
    have later := ih others
    have sums : (rest.map less).sum ≤ (rest.map more).sum := sum_le_sum others
    rw [forall_mem_cons, ← later]
    simp only [map_cons, sum_cons]
    omega

/-- The residual loss is at least what the regular session still misses. -/
def NotUnderstated (audit : AuditDocument) (outcomes : List GapfillInterval)
    (thresholds : LossThresholds) : Prop :=
  (audit.symbols.map fun ledger => ledger.confirmedMissing -
      recoveredConfirmed audit outcomes (· = .regular) (zfill 6 ledger.symbol)).sum ≤
    (evaluateRepairedLoss audit outcomes thresholds).residualConfirmed

instance (audit : AuditDocument) (outcomes : List GapfillInterval) (thresholds : LossThresholds) :
    Decidable (NotUnderstated audit outcomes thresholds) := inferInstanceAs (Decidable (_ ≤ _))

/-- The residual loss of a repaired session is not understated exactly if, of every
symbol, nothing was recovered outside the regular session, or nothing is missing in it any
more. -/
theorem repaired_loss_not_understated_iff (auditor : Auditor) (inputs : List (Envelope × TickBody))
    (outcomes : List GapfillInterval) (thresholds : LossThresholds)
    (distinct : (auditor.document inputs).Distinct)
    (within : WithinMissing (auditor.document inputs) outcomes) :
    NotUnderstated (auditor.document inputs) outcomes thresholds ↔
      ∀ ledger ∈ (auditor.document inputs).symbols,
        recoveredConfirmed (auditor.document inputs) outcomes (· ≠ .regular)
          (zfill 6 ledger.symbol) = 0 ∨
        ledger.confirmedMissing = recoveredConfirmed (auditor.document inputs) outcomes
          (· = .regular) (zfill 6 ledger.symbol) := by
  have residual := residual_sum_eq distinct
    (fun ledger listed => ⟨(document_ledger listed).1, (document_ledger listed).2.1⟩) within thresholds
  rw [NotUnderstated, residual, sum_le_iff_eq]
  · refine forall₂_congr fun ledger listed => ?_
    have elsewhere := recovered_confirmed_nonneg within (· ≠ .regular) (zfill 6 ledger.symbol)
    have covered := regular_recovered_le distinct within listed
    omega
  · intro ledger listed
    have elsewhere := recovered_confirmed_nonneg within (· ≠ .regular) (zfill 6 ledger.symbol)
    have covered := regular_recovered_le distinct within listed
    omega

namespace Sample

/-- The regular session ends at three. -/
def phasedAuditor : Auditor :=
  { classify := fun chetime => if chetime.hour.val < 15 then .regular else .aftermarket }

/-- A trade of one share in the given hour, with the session's counter; the minute and the
second are those of the counter. -/
def hourly (hour cum : Nat) : Envelope × TickBody :=
  (⟨hour, "a", none, ""⟩,
    ⟨some "005930", some ⟨⟨min hour 23, by omega⟩, ⟨min cum 59, by omega⟩, ⟨min cum 59, by omega⟩⟩,
      some cum, some 0, some cum, some 1, none⟩)

/-- One trade is missing in the regular session and one after it. -/
def twoPhases : List (Envelope × TickBody) :=
  [hourly 9 1, hourly 10 3, hourly 16 1, hourly 17 3]

/-- The outcome of the interval with this id and one missing trade. -/
def recoveredOne (id : Nat) : GapfillInterval :=
  { intervalId := id, symbol := "005930", chetimePrev := none, chetimeNext := none, cumPrev := 1
    cumNext := 3, missingTrades := 1, recovered := 1, residual := 0, status := .full }

end Sample

open Sample

/-- The trade of the regular session was recovered, the other one was not. -/
theorem repaired_loss_not_understated_regular :
    NotUnderstated (phasedAuditor.document twoPhases) [recoveredOne 0] {} := by
  refine (repaired_loss_not_understated_iff _ _ _ _ ?_ ?_).mpr ?_
  · unfold AuditDocument.Distinct
    decide +kernel
  · unfold WithinMissing
    decide +kernel
  · decide +kernel

/-- A trade recovered after the session is taken off the session's loss: the regular
trade is still missing, and the verdict counts no loss. -/
theorem aftermarket_recovery_understates_loss :
    (phasedAuditor.document twoPhases).Distinct ∧
    WithinMissing (phasedAuditor.document twoPhases) [recoveredOne 1] ∧
    recoveredConfirmed (phasedAuditor.document twoPhases) [recoveredOne 1]
      (· = .regular) "005930" = 0 ∧
    ((phasedAuditor.document twoPhases).symbols.map (·.confirmedMissing)) = [1] ∧
    (evaluateRepairedLoss (phasedAuditor.document twoPhases) [recoveredOne 1]
      {}).residualConfirmed = 0 ∧
    ¬ NotUnderstated (phasedAuditor.document twoPhases) [recoveredOne 1] {} := by
  refine ⟨?_, ?_, ?_⟩
  · unfold AuditDocument.Distinct
    decide +kernel
  · unfold WithinMissing
    decide +kernel
  · decide +kernel

end KrxAlpha
