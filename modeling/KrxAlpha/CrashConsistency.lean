import KrxAlpha.FaithfulJournal
import KrxAlpha.ReconcilePasses

/-! A reconciliation the process does not survive. The journal of the dead
process restores the books as the reconciliation left them at its last record;
reconciling those with the same rows ends where the uninterrupted call would
have ended, provided no order is left PENDING_SUBMIT and no broker row can be
claimed twice. -/
namespace KrxAlpha
open OrderManager

/-! ### The state a cut leaves -/

private theorem takes_fill_length {ledger paid : Ledger}
    (took : TakesFill ledger order row paid fills) : fills.length ≤ 1 := by
  cases took <;> simp

variable (rows : List BrokerOrderStatus)

private theorem status_records_length (order : Order)
    (row : BrokerOrderStatus) (status : OrderStatus) (fills : List Event) :
    (statusRecords rows order row status fills).length ≤ 1 := by
  unfold statusRecords
  split <;> simp

section Cut
variable (m : OrderManager) (op : Op) (clock : Nat → Timestamp)

private theorem applying_part (ledger : Ledger) (now : Dict String Order) (out : List Event)
    (id : String) (order : Order) (records : Nat)
    (source : (m.orders.sweep (adoptOrder op.rows) (knownNumbers m.orders)).items.get? id = some order)
    (found : now.get? id = some order) (so_far : Applying m op clock ledger now out)
    (inside : records < (applyOrder op.rows ledger order).emitted.length) :
    Applying m op clock (applyPart op.rows ledger order records).1
      (now.set id (applyPart op.rows ledger order records).2)
      (out ++ (applyOrder op.rows ledger order).emitted.take records) := by
  unfold applyPart
  split
  · rename_i none
    rw [none, List.take_zero, List.append_nil, Dict.set_same found]
    exact so_far
  · rename_i some
    have visited := apply_order_step op.rows ledger order
    generalize applyOrder op.rows ledger order = visit at visited inside
    cases visited with
    | idle => cases inside
    | refused live row listed events err cause =>
      cases cause with
      | moved => exact absurd (Nat.lt_one_iff.mp inside) some
      | unreadable => cases inside
      | unpaid => cases inside
    | stuck live row listed low high status read paid fills took =>
      have short := takes_fill_length took
      have inside : records < fills.length := inside
      omega
    | taken live row listed low high status read paid fills took moved =>
      have short := takes_fill_length took
      have status_short := status_records_length op.rows order row status fills
      simp only [List.length_append] at inside
      have between : fills.length = records := by omega
      rw [List.take_left' between]
      exact applying_taken m op clock source found live listed low high took so_far

/-- The process that dies after some records of a reconciliation dies with the
books its passes have made by then. -/
theorem passes_cut_reached (records : Nat)
    (went : (passes op.rows m.orders m.ledger).stop = none) :
    Actions m op m (midway m clock (passesCut op.rows m.orders m.ledger records).1
      (passesCut op.rows m.orders m.ledger records).2
      (((m.orders.sweep (adoptOrder op.rows) (knownNumbers m.orders)).emitted ++
        (passes op.rows m.orders m.ledger).emitted).take records)) := by
  have begun : Adopting m op clock (knownNumbers m.orders) m.orders [] := adopting_start m op clock
  by_cases early :
      records < (m.orders.sweep (adoptOrder op.rows) (knownNumbers m.orders)).emitted.length
  · rw [passesCut, if_pos early, List.take_append_of_le_length early.le]
    refine (Dict.sweep_cut_invariant (Adopting m op clock)
      (fun _ _ _ _ _ source found so_far => adopting_visit m op clock source found so_far)
      (fun known now out id order count _ found so_far inside => ?_) [] begun (adopt_stop _ _)
      records).2.2
    have first : count = 0 := by
      have short := adopt_emitted op.rows known order
      omega
    rw [first, List.take_zero, List.append_nil, adoptPart, Dict.set_same found]
    exact so_far
  · rw [passesCut, if_neg early, List.take_append, List.take_of_length_le (not_lt.mp early)]
    exact Dict.sweep_cut_invariant (Applying m op clock) (applying_visit m op clock)
      (applying_part m op clock) _ (adopted_actions m op clock).2.2 went _

end Cut

/-! ### Restored books reconcile like the ones that died -/

/-- An order and its counterpart in restored books. -/
structure Copied (order copy : Order) : Prop where
  intent : copy.intent = order.intent
  status : copy.status = order.status
  number : copy.brokerOrderNo = order.brokerOrderNo
  filled : copy.filledQty = order.filledQty
  amount : copy.filledAmountKrw = order.filledAmountKrw
  created : copy.createdAt = order.createdAt

/-- An order neither pass touches. -/
def Unsent (order : Order) : Prop := order.status = .rejected ∧ order.brokerOrderNo = none

theorem adopt_unsent (known : List String) (order : Order)
    (unsent : Unsent order) : adoptOrder rows known order = { state := known, item := order } := by
  simp [adoptOrder, unsent.1]

theorem apply_unsent (ledger : Ledger) (order : Order)
    (unsent : Unsent order) : applyOrder rows ledger order = { state := ledger, item := order } := by
  have terminal : order.status ∈ terminalStatuses := by
    rw [unsent.1]
    decide
  simp [applyOrder, terminal]

theorem adopt_copied
    (same : ∀ number, number ∈ known ↔ number ∈ other) (copied : Copied order copy) :
    (∀ number, number ∈ (adoptOrder rows known order).state ↔
        number ∈ (adoptOrder rows other copy).state) ∧
      Copied (adoptOrder rows known order).item (adoptOrder rows other copy).item ∧
      (adoptOrder rows known order).stop = (adoptOrder rows other copy).stop := by
  have rivals : candidates rows other copy = candidates rows known order := by
    apply List.filter_congr
    intro row _
    simp only [isCandidate, matchThreshold, expectedPrice, copied.intent, copied.created, same]
  unfold adoptOrder
  rw [rivals, copied.status]
  split
  · exact ⟨same, copied, rfl⟩
  · split
    · exact ⟨same, copied, rfl⟩
    · exact ⟨fun number => by simp [same], ⟨copied.intent, rfl, rfl, copied.filled, copied.amount,
        copied.created⟩, rfl⟩
    · exact ⟨same, copied, rfl⟩

theorem apply_copied {ledger other : Ledger}
    (same : ledger = other) (copied : Copied order copy) :
    (applyOrder rows ledger order).state = (applyOrder rows other copy).state ∧
      Copied (applyOrder rows ledger order).item (applyOrder rows other copy).item ∧
      (applyOrder rows ledger order).stop = (applyOrder rows other copy).stop := by
  subst same
  have listed : rowOf rows copy = rowOf rows order := by rw [rowOf, copied.number, rowOf]
  have child : hasCancelChild rows copy = hasCancelChild rows order := by
    rw [hasCancelChild, copied.number, hasCancelChild]
  -- What is left of the body once the status is known.
  have settles : ∀ paid row status (fills gaps : List Event),
      (settleRow rows paid order row status fills).state =
          (settleRow rows paid copy row status gaps).state ∧
        Copied (settleRow rows paid order row status fills).item
          (settleRow rows paid copy row status gaps).item ∧
        (settleRow rows paid order row status fills).stop =
          (settleRow rows paid copy row status gaps).stop := by
    intro paid row status fills gaps
    unfold settleRow
    rw [copied.status]
    split
    all_goals exact ⟨rfl, ⟨copied.intent, rfl, copied.number, rfl, rfl, copied.created⟩, rfl⟩
  unfold applyOrder
  rw [listed, child, copied.status, copied.filled, copied.amount, copied.intent]
  split
  · exact ⟨rfl, copied, rfl⟩
  · split
    · exact ⟨rfl, copied, rfl⟩
    · split
      · exact ⟨rfl, copied, rfl⟩
      · split
        · exact ⟨rfl, copied, rfl⟩
        · simp only
          split
          · split
            · exact ⟨rfl, copied, rfl⟩
            · exact settles _ _ _ _ _
          · exact settles _ _ _ _ _

/-- Both passes over restored books end with the same ledger and, order by
order, the same figures as over the books they were restored from. -/
theorem passes_copied (ledger : Ledger)
    {orders copies : Dict String Order} (order : copies.keys.Sublist orders.keys)
    (paired : ∀ id copy, copies.get? id = some copy →
      ∃ order, orders.get? id = some order ∧ Copied order copy)
    (unsent : ∀ id order, orders.get? id = some order → copies.get? id = none → Unsent order) :
    (passes rows orders ledger).state = (passes rows copies ledger).state ∧
      (∀ id copy, (passes rows copies ledger).items.get? id = some copy →
        ∃ order, (passes rows orders ledger).items.get? id = some order ∧ Copied order copy) ∧
      (passes rows orders ledger).stop = (passes rows copies ledger).stop := by
  have known : ∀ number, number ∈ knownNumbers orders ↔ number ∈ knownNumbers copies := by
    intro number
    simp only [knownNumbers, List.mem_filterMap, Dict.mem_values_iff]
    constructor
    · rintro ⟨order, ⟨id, found⟩, bound⟩
      cases held : copies.get? id with
      | none =>
        rw [(unsent id order found held).2] at bound
        cases bound
      | some copy =>
        obtain ⟨other, present, copied⟩ := paired id copy held
        rw [found] at present
        cases present
        exact ⟨copy, ⟨id, held⟩, by rw [copied.number, bound]⟩
    · rintro ⟨copy, ⟨id, held⟩, bound⟩
      obtain ⟨order, found, copied⟩ := paired id copy held
      exact ⟨order, ⟨id, found⟩, by rw [← copied.number, bound]⟩
  obtain ⟨-, adopted, -⟩ :=
    Dict.sweep_thinned (fun known other => ∀ number, number ∈ known ↔ number ∈ other)
      (adopt_copied rows) (adopt_unsent rows) (Dict.thinned order paired unsent) known
  obtain ⟨state, applied, stop⟩ :=
    Dict.sweep_thinned Eq (apply_copied rows) (apply_unsent rows) adopted (Eq.refl ledger)
  exact ⟨state, fun id copy held => Dict.thinned_partner applied held, stop⟩

/-! ### Reconciling again -/

/-- A reconciliation that returned went through both passes. -/
theorem reconcile_returned {m : OrderManager} (returned : (m.reconcile env).2 = .ok changed) :
    m.closed = false ∧ env.statuses = .ok env.rows ∧
      (passes env.rows m.orders m.ledger).stop = none := by
  unfold OrderManager.reconcile at returned
  split at returned
  · cases returned
  · rename_i live
    cases fetched : env.statuses with
    | error err =>
      rw [fetched] at returned
      cases returned
    | ok rows =>
      have same : env.rows = rows := by
        rw [ReconcileEnv.rows, fetched]
        rfl
      rw [same]
      simp only [fetched] at returned
      split at returned
      · cases returned
      · rename_i through
        exact ⟨by simpa using live, rfl, through⟩

/-- Both passes going through make a reconciliation return. -/
theorem reconcile_returns {m : OrderManager} (env : ReconcileEnv) (live : m.closed = false)
    (fetched : env.statuses = .ok env.rows)
    (through : (passes env.rows m.orders m.ledger).stop = none) :
    ∃ changed, m.reconcile env = ({ m with
      orders := (passes env.rows m.orders m.ledger).items
      ledger := (passes env.rows m.orders m.ledger).state
      journal := m.journal ++ stamp m.mode env.clock
        ((m.orders.sweep (adoptOrder env.rows) (knownNumbers m.orders)).emitted ++
          (passes env.rows m.orders m.ledger).emitted) }, .ok changed) := by
  unfold OrderManager.reconcile
  rw [live, fetched]
  unfold passes at through ⊢
  simp only [through]
  exact ⟨_, rfl⟩

/-- A reconciliation never leaves an order PENDING_SUBMIT that was not. -/
theorem action_submitted (action : Action start (.reconcile env) m after)
    (submitted : ∀ id order, m.orders.get? id = some order → order.status ≠ .pendingSubmit) :
    ∀ id order, after.orders.get? id = some order → order.status ≠ .pendingSubmit := by
  have written : ∀ (key : String) (next : Order), next.status ≠ .pendingSubmit →
      ∀ id order, (m.orders.set key next).get? id = some order → order.status ≠ .pendingSubmit :=
    fun _ _ moved => Dict.forall_set moved submitted
  cases action with
  | clerical => exact submitted
  | note => exact submitted
  | reject intent env code detail asked => cases asked
  | register intent env quote ref asked => cases asked
  | settle intent env quote order settled outcome at_ asked => cases asked
  | adopt key order known row clock source found => exact written key _ (submitted key order found)
  | take key before order row paid fills clock source adopts found =>
    exact written key _ (submitted key order found)
  | restate key order row status records clock found live listed level read =>
    exact written key _ (derive_status_known read).1
  | retire key reason order at_ found unknown => exact written key _ (by simp)

private theorem restored_copies {mid : OrderManager}
    (mirror : Mirror ⟨True, True, True⟩ replayed mid.orders)
    (submitted : ∀ id order, mid.orders.get? id = some order → order.status ≠ .pendingSubmit)
    {id : String} (found : (replayed.mapValues readPending).get? id = some copy) :
    ∃ order, mid.orders.get? id = some order ∧ Copied order copy := by
  rw [Dict.get?_mapValues] at found
  obtain ⟨read, held, rfl⟩ := Option.map_eq_some_iff.mp found
  obtain ⟨order, present, twin⟩ := mirror.twin held
  have shown : shownStatus order.status = order.status := by
    have status := submitted id order present
    cases known : order.status <;> first | rfl | exact absurd known status
  exact ⟨order, present, twin.intent, twin.status.trans shown, (twin.numbers trivial).1, twin.filled,
    twin.amount trivial, twin.created trivial⟩

private theorem cut_faithful {holdings : List Holding} {costs : CostModel}
    (faithful : FaithfulDay ⟨True, True, True⟩ holdings costs last)
    (keeps : RowsKeepAmount last (.reconcile env))
    (submitted : ∀ id order, last.orders.get? id = some order → order.status ≠ .pendingSubmit)
    (returned : (last.reconcile env).2 = .ok changed) (appends : Nat) :
    ∃ mid, mid.orders = (passesCut env.rows last.orders last.ledger appends).2 ∧
      mid.ledger = (passesCut env.rows last.orders last.ledger appends).1 ∧
      mid.mode = last.mode ∧ mid.journal = cutJournal last (.reconcile env) appends ∧
      FaithfulDay ⟨True, True, True⟩ holdings costs mid ∧
      ∀ id order, mid.orders.get? id = some order → order.status ≠ .pendingSubmit := by
  obtain ⟨live, fetched, through⟩ := reconcile_returned returned
  obtain ⟨_, uninterrupted⟩ := reconcile_returns env live fetched through
  have chain := passes_cut_reached last (.reconcile env) env.clock appends through
  have elsewhere : ∀ intent other, Op.reconcile env ≠ .submit intent other := by simp
  have conditions : Terms.Meets ⟨True, True, True⟩ last (.reconcile env) :=
    ⟨fun _ => keeps, fun _ => honest_elsewhere elsewhere, fun _ => one_reading_elsewhere elsewhere⟩
  have sent := actions_preserve
    (fun now => ∀ id order, now.orders.get? id = some order → order.status ≠ .pendingSubmit)
    (fun _ _ action so_far => action_submitted action so_far) chain submitted
  have cut := actions_faithful trivial chain conditions faithful
  refine ⟨_, ?_, ?_, ?_, ?_, cut, sent⟩
  · rfl
  · rfl
  · rfl
  · simp only [midway, cutJournal, OrderManager.step, uninterrupted, List.drop_left, stamp_take]
    rfl

/-- Reconcile-time crash consistency. In any state a broker-backed day can
reach, a process that dies after any record of a reconciliation and comes back
on its journal ends, reconciling the same rows, with the order statuses, broker
numbers, cumulative fills and ledger of the uninterrupted call. -/
theorem crash_then_reconcile_agrees (day : Int) (holdings current : List Holding)
    (m last : OrderManager) (moves : List Move) (opening : LiveOpening holdings m)
    (meets : AlongMoves day (WithinDay day fun now op =>
      RowsKeepAmount now op ∧ HonestOutcome op ∧ OneReading op) m moves)
    (went : travel day m moves = .ok last) (env again : ReconcileEnv)
    (repeated : again.statuses = env.statuses) (keeps : RowsKeepAmount last (.reconcile env))
    (submitted : ∀ id order, last.orders.get? id = some order → order.status ≠ .pendingSubmit)
    (clean : Unrivalled env.rows last.orders) (changed : List Order)
    (returned : (last.reconcile env).2 = .ok changed) (appends : Nat) (limits : RiskLimits)
    (today : ∀ record ∈ cutJournal last (.reconcile env) appends, dayOf record.ts = day) :
    ∃ restored reported,
      resume (cutJournal last (.reconcile env) appends) last.mode limits last.costs day current =
        .ok restored ∧
      (restored.reconcile again).2 = .ok reported ∧
      (restored.reconcile again).1.ledger = (last.reconcile env).1.ledger ∧
      ∀ id order, (last.reconcile env).1.orders.get? id = some order →
        (∀ record ∈ last.journal, ∀ intent code detail,
          record.event ≠ .riskReject id intent code detail) →
        ∃ copy, (restored.reconcile again).1.orders.get? id = some copy ∧
          copy.status = order.status ∧ copy.brokerOrderNo = order.brokerOrderNo ∧
          copy.filledQty = order.filledQty ∧ copy.filledAmountKrw = order.filledAmountKrw := by
  let terms : Terms := ⟨True, True, True⟩
  have faithful : FaithfulDay terms holdings m.costs last :=
    travel_faithful trivial opening
      (fun _ _ said => ⟨fun _ => said.1, fun _ => said.2.1, fun _ => said.2.2⟩) meets went
  obtain ⟨live, fetched, through⟩ := reconcile_returned returned
  obtain ⟨_, uninterrupted⟩ := reconcile_returns env live fetched through
  obtain ⟨mid, orders, ledger, mode, journal, cut, sent⟩ :=
    cut_faithful faithful keeps submitted returned appends
  -- The restart restores the books at the cut.
  obtain ⟨restored, replayed, resumed, opened, same_ledger, books, mirror, read⟩ :=
    resume_succeeds opening.valid cut (journal ▸ today) limits current
  rw [journal, mode, ← faithful.priced] at resumed
  obtain ⟨state, figures, stops⟩ := passes_copied env.rows mid.ledger
    (by rw [books, Dict.keys_mapValues]; exact mirror.order)
    (fun _ _ found => restored_copies mirror sent (books ▸ found))
    (fun id order found missing => by
      rw [books, Dict.get?_mapValues, Option.map_eq_none_iff] at missing
      exact ⟨(mirror.unsent found missing).1, (mirror.unsent found missing).2.1⟩)
  -- Reconciling them again ends where the passes would have ended.
  obtain ⟨same_state, same_items, ends⟩ := passes_resumed clean through appends
  simp only [← orders, ← ledger] at same_state same_items ends
  have rows : again.rows = env.rows := by rw [ReconcileEnv.rows, repeated, ReconcileEnv.rows]
  obtain ⟨reported, interrupted⟩ := reconcile_returns again opened
    (by rw [rows, repeated, fetched]) (by rw [rows, same_ledger, ← stops, ends])
  rw [rows, same_ledger] at interrupted
  refine ⟨restored, reported, resumed, by rw [interrupted], ?_, ?_⟩
  · rw [interrupted, uninterrupted]
    exact state.symm.trans same_state
  · intro id order found accepted
    rw [uninterrupted] at found
    rw [interrupted]
    obtain ⟨before, source⟩ := Dict.present_of_keys
      ((Dict.keys_sweep _ _ _).trans (Dict.keys_sweep _ _ _)) found
    obtain ⟨copy, held⟩ := faithful.faithful.copied read
      (fun _ member => by rw [journal]; exact List.mem_append_left _ member) source accepted
    have present : restored.orders.get? id = some (readPending copy) := by
      rw [books, Dict.get?_mapValues, held]
      rfl
    obtain ⟨final, ended⟩ := Dict.present_of_keys
      ((Dict.keys_sweep _ _ _).trans (Dict.keys_sweep _ _ _)).symm present
    obtain ⟨other, reached, copied⟩ := figures id final ended
    rw [same_items, found] at reached
    cases reached
    exact ⟨final, ended, copied.status, copied.number, copied.filled, copied.amount⟩

/-- A purchase that was never answered is adopted and filled by one
reconciliation; the process dies between the record of the fill and that of
the status. -/
theorem crash_then_reconcile_agrees_midfill :
    ∃ last restored,
      travel 20707 (Sample.opening []) [
        .op (.submit (Sample.order "005930" .buy 10) Sample.unanswered)] = .ok last ∧
      resume (cutJournal last
          (.reconcile (Sample.listing [Sample.row "1" "005930" .buy 10 10 1000])) 2)
        .live Sample.limits Sample.free 20707 [] = .ok restored ∧
      (restored.reconcile (Sample.listing [Sample.row "1" "005930" .buy 10 10 1000])).1.ledger =
        (last.reconcile (Sample.listing [Sample.row "1" "005930" .buy 10 10 1000])).1.ledger := by
  have honest : HonestOutcome (.submit (Sample.order "005930" .buy 10) Sample.unanswered) := by
    intro intent env order quote outcome same replied _
    cases same
    cases replied
    exact ⟨rfl, rfl⟩
  have clocked : OneReading (.submit (Sample.order "005930" .buy 10) Sample.unanswered) := by
    intro intent env same
    cases same
    rfl
  have answered : ∀ order ∈ ((Sample.opening []).step
      (.submit (Sample.order "005930" .buy 10) Sample.unanswered)).orders.values,
      order.status ≠ .pendingSubmit := by
    decide
  obtain ⟨restored, -, resumed, -, ledger, -⟩ := crash_then_reconcile_agrees 20707 [] []
    (Sample.opening []) _ [.op (.submit (Sample.order "005930" .buy 10) Sample.unanswered)]
    ⟨by decide, rfl, ⟨_, _, rfl⟩, ⟨by decide, by decide⟩, rfl⟩
    ⟨⟨by decide, honest, clocked⟩, fun _ _ => trivial⟩ rfl
    (Sample.listing [Sample.row "1" "005930" .buy 10 10 1000])
    (Sample.listing [Sample.row "1" "005930" .buy 10 10 1000]) rfl (by decide)
    (fun id order found => answered order (Dict.mem_values_iff.mpr ⟨id, found⟩))
    (by decide) _ rfl 2 Sample.limits (by decide)
  exact ⟨_, restored, rfl, resumed, ledger⟩

/-- A send that raised is PENDING_SUBMIT to the process that made it and
UNKNOWN to the one restored from its journal: only the second adopts the
broker's row for it. -/
theorem crash_adopts_raised_send :
    ∃ last restored lost adopted,
      travel 20707 (Sample.opening []) [
        .op (.submit (Sample.order "005930" .buy 10)
          (Sample.answering (.error (.foreign "ConnectionError")))),
        .op (.submit (Sample.order "005930" .buy 5) (Sample.accepted "9"))] = .ok last ∧
      resume (cutJournal last (.reconcile (Sample.listing [
          Sample.row "1" "005930" .buy 10 0 0, Sample.row "9" "005930" .buy 5 5 500])) 1)
        .live Sample.limits Sample.free 20707 [] = .ok restored ∧
      (last.reconcile (Sample.listing [Sample.row "1" "005930" .buy 10 0 0,
        Sample.row "9" "005930" .buy 5 5 500])).1.orders.get? (Sample.id 1) = some lost ∧
      (restored.reconcile (Sample.listing [Sample.row "1" "005930" .buy 10 0 0,
        Sample.row "9" "005930" .buy 5 5 500])).1.orders.get? (Sample.id 1) = some adopted ∧
      lost.status = .pendingSubmit ∧ lost.brokerOrderNo = none ∧
      adopted.status = .accepted ∧ adopted.brokerOrderNo = some "1" :=
  ⟨_, _, _, _, rfl, rfl, rfl, rfl, by decide, by decide, by decide, by decide⟩

end KrxAlpha
