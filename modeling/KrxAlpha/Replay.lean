import KrxAlpha.OrderLife
import KrxAlpha.Recovery

/-! Journal replay as a simulation. Two accountings run side by side: the live
manager's and the one its journal replays to. Each action keeps them matched,
and the only way to part them is a broker row that moves an order's amount
without its quantity, because that change is never written down. -/
namespace KrxAlpha
open OrderManager

/-! ### What an operation may be held to -/

/-- A row that repeats an order's cumulative quantity repeats its amount: the
row under the order's own number, or under one it may adopt. -/
def RowsKeepAmount (m : OrderManager) (op : Op) : Prop :=
  ∀ id before order row, m.orders.get? id = some before →
    Adopts op.rows (knownNumbers m.orders) before order → order.status ∉ terminalStatuses →
    rowOf op.rows order = some row → row.filledQty = order.filledQty →
    row.filledAmountKrw = order.filledAmountKrw

/-- A row found for an order repeats its amount when it repeats its quantity. -/
def amountFollows (order : Order) : Option BrokerOrderStatus → Bool
  | none => true
  | some row => row.filledQty = order.filledQty → row.filledAmountKrw = order.filledAmountKrw

private theorem amount_follows_iff (order : Order) (listed : Option BrokerOrderStatus) :
    amountFollows order listed ↔ ∀ row, listed = some row → row.filledQty = order.filledQty →
      row.filledAmountKrw = order.filledAmountKrw := by
  cases listed with
  | none => simp [amountFollows]
  | some row =>
    simp only [amountFollows, decide_eq_true_eq, Option.some.injEq, forall_eq']

theorem rows_keep_amount_iff (m : OrderManager) (op : Op) :
    RowsKeepAmount m op ↔ ∀ before ∈ m.orders.values, before.status ∉ terminalStatuses →
      amountFollows before (rowOf op.rows before) ∧ (before.status = .unknown →
        ∀ row ∈ candidates op.rows (knownNumbers m.orders) before,
          amountFollows before (rowOf op.rows { before with
            brokerOrderNo := some row.brokerOrderNo, brokerOrgNo := some row.orgNo,
            brokerOrderTime := some row.orderTime })) := by
  simp only [amount_follows_iff]
  constructor
  · intro keeps before member live
    obtain ⟨id, found⟩ := Dict.mem_values_iff.mp member
    exact ⟨fun row => keeps id before before row found .kept live,
      fun unknown row matched other => keeps id before _ other found (.bound unknown row matched) live⟩
  · intro keeps id before order row found adopts
    have here := keeps before (Dict.mem_values_iff.mpr ⟨id, found⟩)
    cases adopts with
    | kept => exact fun live => (here live).1 row
    | bound unknown other matched => exact fun live => (here live).2 unknown other matched row

instance (m : OrderManager) (op : Op) : Decidable (RowsKeepAmount m op) :=
  decidable_of_iff' _ (rows_keep_amount_iff m op)

/-- Only an accepted outcome carries broker numbers. -/
def HonestOutcome (op : Op) : Prop :=
  ∀ intent env order quote outcome, op = .submit intent env →
    (env.gateway order quote).reply = .ok outcome → outcome.kind ≠ .accepted →
    outcome.brokerOrderNo = none ∧ outcome.brokerOrgNo = none

/-- The intent is journaled under the reading its order was created at. -/
def OneReading (op : Op) : Prop :=
  ∀ intent env, op = .submit intent env → env.clock.journaledAt = env.clock.createdAt

theorem honest_elsewhere (elsewhere : ∀ intent env, op ≠ .submit intent env) : HonestOutcome op :=
  fun intent env _ _ _ asked => absurd asked (elsewhere intent env)

theorem one_reading_elsewhere (elsewhere : ∀ intent env, op ≠ .submit intent env) : OneReading op :=
  fun intent env asked => absurd asked (elsewhere intent env)

/-- Which of the three a run is held to. -/
structure Terms where
  fair : Prop
  honest : Prop
  clocked : Prop

def Terms.Meets (terms : Terms) (m : OrderManager) (op : Op) : Prop :=
  (terms.fair → RowsKeepAmount m op) ∧ (terms.honest → HonestOutcome op) ∧
    (terms.clocked → OneReading op)

/-! ### Matching books -/

theorem shown_shown (status : OrderStatus) : shownStatus (shownStatus status) = shownStatus status := by
  cases status <;> rfl

theorem shown_terminal (terminal : status ∈ terminalStatuses) : shownStatus status = status := by
  revert terminal
  cases status <;> decide

/-- A live order and its replayed counterpart. -/
structure Twin (terms : Terms) (live replayed : Order) : Prop where
  named : replayed.clientId = live.clientId
  intent : replayed.intent = live.intent
  status : shownStatus replayed.status = shownStatus live.status
  bound : ∀ number, live.brokerOrderNo = some number → replayed.brokerOrderNo = some number
  numbers : terms.honest →
    replayed.brokerOrderNo = live.brokerOrderNo ∧ replayed.brokerOrgNo = live.brokerOrgNo
  filled : replayed.filledQty = live.filledQty
  amount : terms.fair → replayed.filledAmountKrw = live.filledAmountKrw
  created : terms.clocked → replayed.createdAt = live.createdAt

/-- The replayed books are the live ones without the refused intents, in the
same order. -/
structure Mirror (terms : Terms) (replayed live : Dict String Order) : Prop where
  order : replayed.keys.Sublist live.keys
  twin : ∀ {id copy}, replayed.get? id = some copy →
    ∃ order, live.get? id = some order ∧ Twin terms order copy
  unsent : ∀ {id order}, live.get? id = some order → replayed.get? id = none →
    order.status = .rejected ∧ order.brokerOrderNo = none ∧ order.filledQty = 0

namespace Mirror
variable {terms : Terms} {replayed live : Dict String Order} {id : String}

theorem empty (terms : Terms) : Mirror terms ∅ ∅ where
  order := List.Sublist.refl _
  twin found := by simp at found
  unsent found := by simp at found

section

variable (mirror : Mirror terms replayed live)
include mirror

theorem absent (fresh : live.get? id = none) : replayed.get? id = none := by
  cases found : replayed.get? id with
  | none => rfl
  | some copy =>
    obtain ⟨order, present, -⟩ := mirror.twin found
    rw [fresh] at present
    cases present

/-- An open order has a counterpart. -/
theorem copy {order : Order}
    (found : live.get? id = some order) (accepted : order.status ≠ .rejected) :
    ∃ copy, replayed.get? id = some copy ∧ Twin terms order copy := by
  cases held : replayed.get? id with
  | none => exact absurd (mirror.unsent found held).1 accepted
  | some copy =>
    obtain ⟨other, present, twin⟩ := mirror.twin held
    rw [found] at present
    cases present
    exact ⟨copy, rfl, twin⟩

private theorem written (order : (replayed.set id nextCopy).keys.Sublist (live.set id next).keys)
    (twin : Twin terms next nextCopy) :
    Mirror terms (replayed.set id nextCopy) (live.set id next) where
  order := order
  twin {probe other} present := by
    rw [Dict.get?_set] at present
    rw [Dict.get?_set]
    split at present
    · rename_i same
      cases present
      exact ⟨next, if_pos same, twin⟩
    · rename_i different
      rw [if_neg different]
      exact mirror.twin present
  unsent {probe other} present missing := by
    rw [Dict.get?_set] at missing
    split at missing
    · cases missing
    · rename_i different
      rw [Dict.get?_set_of_ne different] at present
      exact mirror.unsent present missing

/-- Both sides rewrite one order. -/
theorem move {order copy next nextCopy : Order}
    (found : live.get? id = some order) (held : replayed.get? id = some copy)
    (twin : Twin terms next nextCopy) :
    Mirror terms (replayed.set id nextCopy) (live.set id next) := by
  refine mirror.written ?_ twin
  rw [Dict.keys_set_of_present found, Dict.keys_set_of_present held]
  exact mirror.order

/-- The live side alone rewrites an order, within what its counterpart says. -/
theorem move_live {order copy next : Order}
    (found : live.get? id = some order) (held : replayed.get? id = some copy)
    (twin : Twin terms next copy) : Mirror terms replayed (live.set id next) := by
  have moved := mirror.move found held twin
  rwa [Dict.set_same held] at moved

/-- A refused intent has no counterpart. -/
theorem refuse {order : Order} (fresh : live.get? id = none) (refused : order.status = .rejected)
    (unbound : order.brokerOrderNo = none) (unfilled : order.filledQty = 0) :
    Mirror terms replayed (live.set id order) where
  order := by
    rw [Dict.keys_set_new fresh]
    exact mirror.order.trans (List.sublist_append_left _ _)
  twin {probe copy} present := by
    obtain ⟨other, held, twin⟩ := mirror.twin present
    have different : probe ≠ id := by
      rintro rfl
      rw [fresh] at held
      cases held
    exact ⟨other, by rwa [Dict.get?_set_of_ne different], twin⟩
  unsent {probe other} present missing := by
    rw [Dict.get?_set] at present
    split at present
    · cases present
      exact ⟨refused, unbound, unfilled⟩
    · exact mirror.unsent present missing

/-- An intent opens an order on both sides. -/
theorem opened {order copy : Order} (fresh : live.get? id = none) (twin : Twin terms order copy) :
    Mirror terms (replayed.set id copy) (live.set id order) := by
  refine mirror.written ?_ twin
  rw [Dict.keys_set_new fresh, Dict.keys_set_new (mirror.absent fresh)]
  exact mirror.order.append (List.Sublist.refl _)

end

end Mirror

/-! ### Replaying one record -/

/-- Orders and ledger replayed together, record by record. -/
def replayStep (state : Dict String Order × Ledger) (record : Record) :
    Except Error (Dict String Order × Ledger) := do
  let orders ← replayRecord state.1 record
  let ledger ← replayFill state.1 state.2 record
  return (orders, ledger)

/-- Events the reader applies to the order they are filed under. -/
def Event.aboutOrder : Event → Bool
  | .sessionStart .. => false
  | .positionMismatch .. => false
  | .riskReject .. => false
  | .intent .. => false
  | _ => true

variable {orders : Dict String Order}

theorem replay_record_event {record : Record} {id : String} {seq : Nat}
    (about : record.event.aboutOrder) (filed : record.event.clientId? = some id)
    (read : seqOf id = .ok seq) (found : orders.get? id = some order) :
    replayRecord orders record = (replayEvent order record.event).map (orders.set id) := by
  obtain ⟨ts, mode, event⟩ := record
  cases event <;>
    simp only [Event.aboutOrder, Event.clientId?, Bool.false_eq_true, Option.some.injEq] at about filed <;>
    subst filed <;>
    simp only [replayRecord, Event.clientId?, read, found] <;>
    rfl

/-- A record filed under a replayed order that says nothing about its state. -/
theorem replay_record_inert {record : Record} {id : String} {seq : Nat}
    (inert : record.event.inert) (filed : record.event.clientId? = some id)
    (read : seqOf id = .ok seq) (found : orders.get? id = some order) :
    replayRecord orders record = .ok orders := by
  have about : record.event.aboutOrder := by
    cases event : record.event <;> simp [event, Event.inert, Event.aboutOrder] at inert ⊢
  have same : replayEvent order record.event = .ok order := by
    cases event : record.event <;> simp [event, Event.inert, replayEvent] at inert ⊢
  rw [replay_record_event about filed read found, same, Except.map, Dict.set_same found]

theorem replay_fill_other {ledger : Ledger} {record : Record}
    (other : ∀ id quantity amount total cumulative,
      record.event ≠ .fill id quantity amount total cumulative) :
    replayFill orders ledger record = .ok ledger := by
  unfold replayFill
  split
  · rename_i event
    exact absurd event (other _ _ _ _ _)
  · rfl

/-! ### One action on both sides -/

/-- What the records of one action do to the replayed side: an accepted replay
matches the manager afterwards, and a fair one is accepted and pays the same. -/
def Replays (terms : Terms) (m after : OrderManager) (replayed : Dict String Order) : Prop :=
  ∃ new, after.journal = m.journal ++ new ∧
    (∀ next, new.foldlM replayRecord replayed = .ok next → Mirror terms next after.orders) ∧
    (terms.fair → ∃ next, new.foldlM replayStep (replayed, m.ledger) = .ok (next, after.ledger))

section Actions
variable {terms : Terms} {start m after : OrderManager} {op : Op} {replayed : Dict String Order}

private theorem replays_nothing (journal : after.journal = m.journal)
    (ledger : after.ledger = m.ledger) (mirror : Mirror terms replayed after.orders) :
    Replays terms m after replayed := by
  refine ⟨[], by simp [journal], fun next done => ?_, fun _ => ⟨replayed, by rw [ledger]; rfl⟩⟩
  cases done
  exact mirror

private theorem replays_record {record : Record} (journal : after.journal = m.journal ++ [record])
    (read : replayRecord replayed record = .ok next)
    (paid : replayFill replayed m.ledger record = .ok after.ledger)
    (mirror : Mirror terms next after.orders) : Replays terms m after replayed := by
  refine ⟨[record], journal, fun other done => ?_, fun _ => ⟨next, ?_⟩⟩
  · simp only [List.foldlM_cons, List.foldlM_nil, bind_pure, read] at done
    cases done
    exact mirror
  · simp only [List.foldlM_cons, List.foldlM_nil, bind_pure, replayStep, read, paid]
    rfl

private theorem replays_event (record : Record) {id : String}
    (filed : Filed m) (mirror : Mirror terms replayed m.orders)
    (found : m.orders.get? id = some order) (held : replayed.get? id = some copy)
    (about : record.event.aboutOrder) (named : record.event.clientId? = some id)
    (other : ∀ id quantity amount total cumulative,
      record.event ≠ .fill id quantity amount total cumulative)
    (journal : after.journal = m.journal ++ [record]) (orders : after.orders = m.orders.set id next)
    (ledger : after.ledger = m.ledger) (read : replayEvent copy record.event = .ok nextCopy)
    (twin : Twin terms next nextCopy) : Replays terms m after replayed := by
  obtain ⟨seq, -, numbered⟩ := filed.drawn found
  have written : replayRecord replayed record = .ok (replayed.set id nextCopy) := by
    rw [replay_record_event about named numbered held, read]
    rfl
  apply replays_record journal written (by rw [replay_fill_other other, ledger])
  rw [orders]
  exact mirror.move found held twin

private theorem not_rejected (live : status ∉ terminalStatuses) : status ≠ .rejected := by
  rintro rfl
  exact live (by decide)

private theorem settle_replays {order settled : Order}
    (honest : terms.honest → outcome.kind ≠ .accepted →
      outcome.brokerOrderNo = none ∧ outcome.brokerOrgNo = none)
    (filed : Filed m) (mirror : Mirror terms replayed m.orders)
    (found : m.orders.get? order.clientId = some order) (pending : order.status = .pendingSubmit)
    (unbound : order.brokerOrderNo = none ∧ order.brokerOrgNo = none)
    (answered : settleOrder order outcome = .ok settled) :
    Replays terms m { m with
      orders := m.orders.set order.clientId settled
      journal := m.journal ++ [⟨at_, m.mode, .submitResult order.clientId outcome settled.status⟩] }
      replayed := by
  obtain ⟨copy, held, twin⟩ := mirror.copy found (by rw [pending]; decide)
  refine replays_event ⟨at_, m.mode, .submitResult order.clientId outcome settled.status⟩ filed mirror
    found held rfl rfl (by simp) rfl rfl rfl rfl ?_
  rcases settle_order_pending pending answered with ⟨-, rfl⟩ | ⟨kind, rfl⟩ | ⟨kind, rfl⟩
  · exact ⟨twin.named, twin.intent, rfl, fun _ bound => bound, fun _ => ⟨rfl, rfl⟩, twin.filled,
      twin.amount, twin.created⟩
  · refine ⟨twin.named, twin.intent, rfl, fun _ bound => ?_, fun said => ?_, twin.filled,
      twin.amount, twin.created⟩
    · simp [unbound.1] at bound
    · simpa [unbound] using honest said (by simp [kind])
  · refine ⟨twin.named, twin.intent, rfl, fun _ bound => ?_, fun said => ?_, twin.filled,
      twin.amount, twin.created⟩
    · simp [unbound.1] at bound
    · simpa [unbound] using honest said (by simp [kind])

private theorem take_replays {id : String} {clock : Nat → Timestamp}
    (keeps : terms.fair → row.filledQty = order.filledQty →
      row.filledAmountKrw = order.filledAmountKrw)
    (filed : Filed m) (mirror : Mirror terms replayed m.orders)
    (found : m.orders.get? id = some order) (live : order.status ∉ terminalStatuses)
    (high : row.filledQty ≤ order.intent.qty) (took : TakesFill m.ledger order row paid fills) :
    Replays terms m { m with
      orders := m.orders.set id { order with
        filledQty := row.filledQty, filledAmountKrw := row.filledAmountKrw }
      ledger := paid
      journal := m.journal ++ stamp m.mode clock fills } replayed := by
  obtain ⟨copy, held, twin⟩ := mirror.copy found (not_rejected live)
  cases took with
  | same equal =>
    -- Nothing is written down, so the amount has to be the one already replayed.
    refine replays_nothing (by simp [stamp]) rfl (mirror.move_live found held ?_)
    exact ⟨twin.named, twin.intent, twin.status, twin.bound, twin.numbers,
      twin.filled.trans equal.symm, fun fair => (twin.amount fair).trans (keeps fair equal).symm,
      twin.created⟩
  | more larger paid pnl applied =>
    obtain ⟨seq, -, numbered⟩ := filed.drawn found
    have valid := (Ledger.apply_fill_ok applied).2.1
    let record : Record := ⟨clock 0, m.mode, .fill order.clientId (row.filledQty - order.filledQty)
      (row.filledAmountKrw - order.filledAmountKrw) row.filledQty (some row.filledAmountKrw)⟩
    let nextCopy := { copy with
      filledQty := row.filledQty, filledAmountKrw := row.filledAmountKrw }
    have taken : Mirror terms (replayed.set id nextCopy) (m.orders.set id { order with
        filledQty := row.filledQty, filledAmountKrw := row.filledAmountKrw }) :=
      mirror.move found held ⟨twin.named, twin.intent, twin.status, twin.bound, twin.numbers, rfl,
        fun _ => rfl, twin.created⟩
    have event : replayRecord replayed record =
        (replayEvent copy record.event).map (replayed.set id) :=
      replay_record_event rfl (congrArg some (filed.named found)) numbered held
    refine ⟨[record], rfl, fun next done => ?_, fun fair => ⟨replayed.set id nextCopy, ?_⟩⟩
    · simp only [List.foldlM_cons, List.foldlM_nil, bind_pure, event, record, replayEvent] at done
      split at done
      · cases done
      · cases done
        exact taken
    · have read : replayEvent copy record.event = .ok nextCopy := by
        have amount := twin.amount fair
        have qty : copy.intent.qty = order.intent.qty := by rw [twin.intent]
        simp only [record, replayEvent]
        rw [if_neg (by rw [twin.filled, amount, qty]; omega)]
      have paying : replayFill replayed m.ledger record = .ok paid := by
        simp only [record, replayFill, filed.named found, held, twin.intent, applied]
        rfl
      simp only [List.foldlM_cons, List.foldlM_nil, bind_pure, replayStep, event, read, paying]
      rfl

private theorem restate_replays {id : String} {row : BrokerOrderStatus} {clock : Nat → Timestamp}
    (filed : Filed m) (mirror : Mirror terms replayed m.orders)
    (found : m.orders.get? id = some order) (live : order.status ∉ terminalStatuses)
    (level : order.filledQty = row.filledQty)
    (restates : Restates order status row.filledQty records) :
    Replays terms m { m with
      orders := m.orders.set id { order with status }
      journal := m.journal ++ stamp m.mode clock records } replayed := by
  obtain ⟨copy, held, twin⟩ := mirror.copy found (not_rejected live)
  cases restates with
  | silent same =>
    subst same
    refine replays_nothing (by simp [stamp]) rfl ?_
    rw [Dict.set_same found]
    exact mirror
  | recorded evidence =>
    have read : replayEvent copy (.status order.clientId status (some row.filledQty) evidence) =
        .ok { copy with status } := by
      simp [replayEvent, twin.filled, level]
    exact replays_event ⟨clock 0, m.mode, .status order.clientId status (some row.filledQty) evidence⟩
      filed mirror found held rfl (congrArg some (filed.named found)) (by simp) rfl rfl rfl read
      ⟨twin.named, twin.intent, rfl, twin.bound, twin.numbers, twin.filled, twin.amount, twin.created⟩

/-- Every action keeps the two sides matched. -/
theorem action_replays (action : Action start op m after) (meets : terms.Meets start op)
    (filed : Filed m) (mirror : Mirror terms replayed m.orders) :
    Replays terms m after replayed := by
  obtain ⟨fair, honest, clocked⟩ := meets
  cases action with
  | clerical => exact replays_nothing rfl rfl mirror
  | note id order at_ event inert named found live =>
    obtain ⟨copy, held, -⟩ := mirror.copy found (not_rejected live)
    obtain ⟨seq, -, numbered⟩ := filed.drawn found
    have under : event.clientId? = some id := by
      rcases named with direct | own
      · exact direct
      · rw [own, filed.named found]
    refine replays_record rfl (replay_record_inert inert under numbered held)
      (replay_fill_other ?_) mirror
    rintro _ _ _ _ _ rfl
    cases inert
  | reject intent env code detail asked =>
    exact replays_record rfl rfl rfl (mirror.refuse (next_id_fresh filed env) rfl rfl rfl)
  | register intent env quote ref asked quoted passed =>
    have fresh := next_id_fresh filed env
    have absent : replayed.contains (m.nextId env) = false := by
      simp [Dict.contains, mirror.absent fresh]
    have read : replayRecord replayed ⟨env.clock.journaledAt, m.mode,
        .intent (m.nextId env) intent ref⟩ = .ok (replayed.set (m.nextId env)
          { clientId := m.nextId env, intent, status := .pendingSubmit,
            createdAt := env.clock.journaledAt }) := by
      have numbered : seqOf (m.nextId env) = .ok (m.seq + 1) := seq_of_client_id _ _ _
      simp only [replayRecord, absent, numbered]
      rfl
    refine replays_record rfl read rfl (mirror.opened fresh ?_)
    exact ⟨rfl, rfl, rfl, fun _ bound => bound, fun _ => ⟨rfl, rfl⟩, rfl, fun _ => rfl,
      fun once => clocked once intent env asked⟩
  | settle intent env quote order settled outcome at_ asked replied found pending unbound answered =>
    exact settle_replays (fun said other => honest said intent env order quote outcome asked replied
      other) filed mirror found pending unbound answered
  | adopt id order known row clock source found since covers unknown single =>
    obtain ⟨copy, held, twin⟩ := mirror.copy found (by rw [unknown]; decide)
    exact replays_event
      ⟨clock 0, m.mode, .unknownAdopted order.clientId row.brokerOrderNo row.orgNo row.orderTime⟩
      filed mirror found held rfl (congrArg some (filed.named found)) (by simp) rfl rfl rfl rfl
      ⟨twin.named, twin.intent, twin.status, fun _ bound => bound, fun _ => ⟨rfl, rfl⟩, twin.filled,
        twin.amount, twin.created⟩
  | take id before order row paid fills clock source adopts found live listed low high took =>
    exact take_replays (fun said => fair said id before order row source adopts live listed) filed
      mirror found live high took
  | restate id order row status records clock found live listed level read moved restates =>
    exact restate_replays filed mirror found live level restates
  | retire id reason order at_ found unknown unbound =>
    obtain ⟨copy, held, twin⟩ := mirror.copy found (by rw [unknown]; decide)
    exact replays_event ⟨at_, m.mode, .unknownResolved id reason⟩ filed mirror found held rfl rfl
      (by simp) rfl rfl rfl rfl
      ⟨twin.named, twin.intent, rfl, twin.bound, twin.numbers, twin.filled, twin.amount, twin.created⟩

end Actions

end KrxAlpha
