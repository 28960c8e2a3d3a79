import KrxAlpha.Session

/-! The life of one order inside a session: under which id it is filed, and
what any operation can do to it. -/
namespace KrxAlpha
open OrderManager

/-- Orders are filed under their own id, and the number of every id has been drawn. -/
structure Filed (m : OrderManager) : Prop where
  named : ∀ {id order}, m.orders.get? id = some order → order.clientId = id
  drawn : ∀ {id order}, m.orders.get? id = some order → ∃ seq ≤ m.seq, seqOf id = .ok seq

theorem filed_of_empty (empty : m.orders = ∅) : Filed m where
  named found := by simp [empty] at found
  drawn found := by simp [empty] at found

/-- The next submission never takes the id of an order that exists. -/
theorem next_id_fresh (filed : Filed m) (env : SubmitEnv) :
    m.orders.get? (m.nextId env) = none := by
  cases found : m.orders.get? (m.nextId env) with
  | none => rfl
  | some order =>
    obtain ⟨seq, bound, read⟩ := filed.drawn found
    rw [nextId, seq_of_client_id] at read
    cases read
    omega

/-- Everything an operation can do to an order that is already on the books. -/
inductive OrderStep (before : Order) : Order → Prop where
  | same : OrderStep before before
  | settled (pending : before.status = .pendingSubmit) (unbound : before.brokerOrderNo = none)
      (outcome : BrokerOutcome) (after : Order)
      (answered : settleOrder before outcome = .ok after) : OrderStep before after
  | adopted (unknown : before.status = .unknown) (row : BrokerOrderStatus) :
      OrderStep before { before with
        brokerOrderNo := some row.brokerOrderNo, brokerOrgNo := some row.orgNo,
        brokerOrderTime := some row.orderTime }
  | took (live : before.status ∉ terminalStatuses) (bound : before.brokerOrderNo ≠ none)
      (row : BrokerOrderStatus) (low : before.filledQty ≤ row.filledQty)
      (high : row.filledQty ≤ before.intent.qty) :
      OrderStep before { before with
        filledQty := row.filledQty, filledAmountKrw := row.filledAmountKrw }
  | restated (live : before.status ∉ terminalStatuses) (bound : before.brokerOrderNo ≠ none)
      (status : OrderStatus) (known : status ≠ .pendingSubmit ∧ status ≠ .unknown) :
      OrderStep before { before with status }
  | retired (unknown : before.status = .unknown) (unbound : before.brokerOrderNo = none)
      (reason : String) :
      OrderStep before { before with
        status := .rejected, rejectCode := some "unknown_resolved", rejectMessage := some reason }

private theorem row_of_bound
    (found : rowOf rows order = some row) : order.brokerOrderNo ≠ none := by
  intro unbound
  simp [rowOf, unbound] at found

/-- An answer moves a pending order along one of three edges. -/
theorem settle_order_pending
    (pending : order.status = .pendingSubmit) (answered : settleOrder order outcome = .ok settled) :
    (outcome.kind = .accepted ∧ settled = { order with
        status := .accepted, brokerOrderNo := outcome.brokerOrderNo,
        brokerOrgNo := outcome.brokerOrgNo, brokerOrderTime := outcome.orderTime }) ∨
      (outcome.kind = .rejected ∧ settled = { order with
        status := .rejected, rejectCode := some outcome.code,
        rejectMessage := some outcome.message }) ∨
      (outcome.kind = .unknown ∧ settled = { order with status := .unknown }) := by
  unfold settleOrder at answered
  rw [pending] at answered
  cases kind : outcome.kind with
  | accepted =>
    simp only [kind] at answered
    exact .inl ⟨rfl, (Except.ok.inj answered).symm⟩
  | rejected =>
    simp only [kind] at answered
    exact .inr (.inl ⟨rfl, (Except.ok.inj answered).symm⟩)
  | unknown =>
    simp only [kind] at answered
    exact .inr (.inr ⟨rfl, (Except.ok.inj answered).symm⟩)

/-- What no step changes: the order's identity. -/
theorem order_step_identity (step : OrderStep before after) :
    after.clientId = before.clientId ∧ after.intent = before.intent ∧
      after.createdAt = before.createdAt := by
  cases step with
  | same => exact ⟨rfl, rfl, rfl⟩
  | settled pending unbound outcome after answered =>
    rcases settle_order_pending pending answered with ⟨-, rfl⟩ | ⟨-, rfl⟩ | ⟨-, rfl⟩ <;>
      exact ⟨rfl, rfl, rfl⟩
  | adopted => exact ⟨rfl, rfl, rfl⟩
  | took => exact ⟨rfl, rfl, rfl⟩
  | restated => exact ⟨rfl, rfl, rfl⟩
  | retired => exact ⟨rfl, rfl, rfl⟩

section Actions
variable {start m after : OrderManager} {op : Op}

/-- One key of the books is written: either it is new, or it is an order that
took one step. The ledger moves by exactly the quantity the order took. -/
inductive Writes (m after : OrderManager) : Prop where
  | nothing (same : after.orders = m.orders) (still : after.ledger = m.ledger)
  | opened (env : SubmitEnv) (order : Order) (named : order.clientId = m.nextId env)
      (unfilled : order.filledQty = 0)
      (checked : order.status = .rejected ∨ order.status = .pendingSubmit ∧ 1 ≤ order.intent.qty ∧
        (order.intent.side = .sell → order.intent.qty ≤
          m.ledger.qty order.intent.symbol - m.openQty order.intent.symbol .sell))
      (counted : after.seq = m.seq + 1) (written : after.orders = m.orders.set (m.nextId env) order)
      (still : after.ledger = m.ledger)
  | moved (id : String) (before order : Order) (found : m.orders.get? id = some before)
      (step : OrderStep before order) (written : after.orders = m.orders.set id order)
      (ledger : ∀ symbol, after.ledger.qty symbol = m.ledger.qty symbol +
        if symbol = before.intent.symbol then
          Ledger.signedQty before.intent.side (order.filledQty - before.filledQty) else 0)

private theorem still_qty {ledger : Ledger} {order : Order} (symbol : String)
    (same : filledQty = order.filledQty) :
    ledger.qty symbol = ledger.qty symbol + if symbol = order.intent.symbol then
      Ledger.signedQty order.intent.side (filledQty - order.filledQty) else 0 := by
  have zero : Ledger.signedQty order.intent.side (filledQty - order.filledQty) = 0 := by
    rw [same]
    cases order.intent.side <;> simp [Ledger.signedQty]
  simp [zero]

private theorem takes_fill_qty {ledger paid : Ledger}
    (took : TakesFill ledger order row paid fills) (symbol : String) :
    paid.qty symbol = ledger.qty symbol + if symbol = order.intent.symbol then
      Ledger.signedQty order.intent.side (row.filledQty - order.filledQty) else 0 := by
  cases took with
  | same equal => exact still_qty symbol equal
  | more larger paid pnl applied => exact Ledger.apply_fill_qty applied symbol

section

variable (action : Action start op m after)
include action

theorem action_writes : Writes m after := by
  cases action with
  | clerical => exact .nothing rfl rfl
  | note => exact .nothing rfl rfl
  | reject intent env code detail => exact .opened env _ rfl rfl (.inl rfl) rfl rfl rfl
  | register intent env quote ref asked quoted passed =>
    obtain ⟨-, orderable, -, checked⟩ := risk_gate_ok passed
    exact .opened env _ rfl rfl (.inr ⟨rfl, checked.positive, checked.position⟩) rfl rfl rfl
  | settle intent env quote order settled outcome at_ asked replied found pending unbound answered =>
    refine .moved _ order settled found (.settled pending unbound.1 outcome settled answered) rfl
      fun symbol => still_qty symbol ?_
    rcases settle_order_pending pending answered with ⟨-, rfl⟩ | ⟨-, rfl⟩ | ⟨-, rfl⟩ <;> rfl
  | adopt id order known row clock source found since covers unknown single =>
    exact .moved id order _ found (.adopted unknown row) rfl fun symbol => still_qty symbol rfl
  | take id before order row paid fills clock source adopts found live listed low high took =>
    exact .moved id order _ found (.took live (row_of_bound listed) row low high) rfl
      (takes_fill_qty took)
  | restate id order row status records clock found live listed level read =>
    exact .moved id order _ found
      (.restated live (row_of_bound listed) status (derive_status_known read)) rfl
      fun symbol => still_qty symbol rfl
  | retire id reason order at_ found unknown unbound =>
    exact .moved id order _ found (.retired unknown unbound reason) rfl
      fun symbol => still_qty symbol rfl

theorem action_seq : m.seq ≤ after.seq := by
  cases action with
  | clerical seq reason closed grows => exact grows
  | reject => exact Nat.le_succ _
  | register => exact Nat.le_succ _
  | _ => exact Nat.le_refl _

theorem action_filed (filed : Filed m) : Filed after := by
  have grows := action_seq action
  have kept : ∀ {id order}, m.orders.get? id = some order → ∃ seq ≤ after.seq, seqOf id = .ok seq := by
    intro id order found
    obtain ⟨seq, bound, read⟩ := filed.drawn found
    exact ⟨seq, Nat.le_trans bound grows, read⟩
  cases action_writes action with
  | nothing same =>
    exact ⟨fun found => filed.named (same ▸ found), fun found => kept (same ▸ found)⟩
  | opened env order named _ _ counted written =>
    have ids : ∀ id now, (m.orders.set (m.nextId env) order).get? id = some now →
        now.clientId = id := Dict.forall_set named fun _ _ => filed.named
    have drawn : ∀ id now, (m.orders.set (m.nextId env) order).get? id = some now →
        ∃ seq ≤ after.seq, seqOf id = .ok seq :=
      Dict.forall_set ⟨m.seq + 1, Nat.le_of_eq counted.symm, seq_of_client_id _ _ _⟩ fun _ _ => kept
    exact ⟨fun found => ids _ _ (written ▸ found), fun found => drawn _ _ (written ▸ found)⟩
  | moved key before order held step written =>
    have same : order.clientId = key := (order_step_identity step).1.trans (filed.named held)
    have ids : ∀ id now, (m.orders.set key order).get? id = some now → now.clientId = id :=
      Dict.forall_set same fun _ _ => filed.named
    have drawn : ∀ id now, (m.orders.set key order).get? id = some now →
        ∃ seq ≤ after.seq, seqOf id = .ok seq := Dict.forall_set (kept held) fun _ _ => kept
    exact ⟨fun found => ids _ _ (written ▸ found), fun found => drawn _ _ (written ▸ found)⟩

/-- An order on the books stays there and takes at most one step. -/
theorem action_order (filed : Filed m) {id : String} (found : m.orders.get? id = some order) :
    ∃ later, after.orders.get? id = some later ∧ OrderStep order later := by
  cases action_writes action with
  | nothing same => exact ⟨order, same ▸ found, .same⟩
  | opened env opened named _ _ counted written =>
    have different : id ≠ m.nextId env := by
      rintro rfl
      rw [next_id_fresh filed env] at found
      cases found
    exact ⟨order, by rwa [written, Dict.get?_set_of_ne different], .same⟩
  | moved key before moved held step written =>
    by_cases same : id = key
    · subst same
      rw [found] at held
      cases held
      exact ⟨moved, by rw [written, Dict.get?_set_self], step⟩
    · exact ⟨order, by rwa [written, Dict.get?_set_of_ne same], .same⟩

end

end Actions

/-- A property that every step hands on along one order's life holds of the
order after any run. -/
theorem run_order {Rel : Order → Order → Prop} (refl : ∀ order, Rel order order)
    (step : ∀ first middle last, Rel first middle → OrderStep middle last → Rel first last)
    (filed : Filed m) {id : String} (found : m.orders.get? id = some order) (ops : List Op) :
    ∃ later, (m.run ops).orders.get? id = some later ∧ Rel order later := by
  have whole : Filed (m.run ops) ∧
      ∃ later, (m.run ops).orders.get? id = some later ∧ Rel order later := by
    refine run_invariant (fun now =>
      Filed now ∧ ∃ later, now.orders.get? id = some later ∧ Rel order later) ?_
      ⟨filed, order, found, refl order⟩ ops
    rintro start op now after action ⟨now_filed, middle, present, related⟩
    obtain ⟨last, held, moved⟩ := action_order action now_filed present
    exact ⟨action_filed action now_filed, last, held, step order middle last related moved⟩
  exact whole.2

end KrxAlpha
