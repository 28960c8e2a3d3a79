import Mathlib.Logic.Relation
import KrxAlpha.OrderManager

/-! Runs of one order manager. Every operation is a chain of small actions,
each of which writes one order, at most one fill and the records that go with
them. An invariant is proved once per action and then holds along every run,
through operations that raise midway as well. -/
namespace KrxAlpha
open OrderManager

/-- The public operations, each with the answers its environment gives. -/
inductive Op where
  | submit (intent : OrderIntent) (env : SubmitEnv)
  | cancel (clientId : String) (env : CancelEnv)
  | reconcile (env : ReconcileEnv)
  | resolveUnknown (clientId reason : String) (env : ReconcileEnv) (recordedAt : Timestamp)
  | blockSubmits (reason : String)
  | close

/-- The rows `fetch_statuses` returned. -/
def ReconcileEnv.rows (env : ReconcileEnv) : List BrokerOrderStatus :=
  env.statuses.toOption.getD []

/-- The rows an operation reads from the broker. -/
def Op.rows : Op → List BrokerOrderStatus
  | .reconcile env => env.rows
  | .resolveUnknown _ _ env _ => env.rows
  | _ => []

namespace OrderManager

/-- The manager an operation leaves behind, whether it returned or raised. -/
def step (m : OrderManager) : Op → OrderManager
  | .submit intent env => (m.submit intent env).1
  | .cancel clientId env => (m.cancel clientId env).1
  | .reconcile env => (m.reconcile env).1
  | .resolveUnknown clientId reason env recordedAt =>
    (m.resolveUnknown clientId reason env recordedAt).1
  | .blockSubmits reason => m.blockSubmits reason
  | .close => m.close

def run (m : OrderManager) (ops : List Op) : OrderManager := ops.foldl step m

@[simp] theorem run_nil (m : OrderManager) : m.run [] = m := rfl

@[simp] theorem run_cons (m : OrderManager) (op : Op) (ops : List Op) :
    m.run (op :: ops) = (m.step op).run ops := rfl

end OrderManager

/-! ### Actions -/

/-- Events that say nothing about the order's state. -/
def Event.inert : Event → Bool
  | .gateway .. => true
  | .cancelResult .. => true
  | .unknownAmbiguous .. => true
  | .integrityViolation .. => true
  | _ => false

/-- What the first loop may have made of an order before the second meets it. -/
inductive Adopts (rows : List BrokerOrderStatus) (known : List String) (before : Order) :
    Order → Prop where
  | kept : Adopts rows known before before
  | bound (unknown : before.status = .unknown) (row : BrokerOrderStatus)
      (matched : row ∈ candidates rows known before) :
      Adopts rows known before { before with
        brokerOrderNo := some row.brokerOrderNo, brokerOrgNo := some row.orgNo,
        brokerOrderTime := some row.orderTime }

/-- Every number a local order is bound to is on the list. -/
def Covers (known : List String) (orders : Dict String Order) : Prop :=
  ∀ clientId order number, orders.get? clientId = some order →
    order.brokerOrderNo = some number → number ≠ "" → number ∈ known

/-- The record a change of status or quantity leaves, if there was one. -/
inductive Restates (order : Order) (status : OrderStatus) (filledQty : Int) : List Event → Prop where
  | silent (same : status = order.status) : Restates order status filledQty []
  | recorded (evidence : Evidence) :
      Restates order status filledQty [.status order.clientId status (some filledQty) evidence]

/-- One action of an operation `op` that began in `start`. An action appends
at most one record, so that every prefix of what an operation appends is the
journal of a manager between two actions. -/
inductive Action (start : OrderManager) (op : Op) :
    OrderManager → OrderManager → Prop where
  /-- Counters and switches. -/
  | clerical {m : OrderManager} (seq : Nat) (reason : Option String) (closed : Bool)
      (grows : m.seq ≤ seq) :
      Action start op m { m with seq, submitBlockReason := reason, closed }
  /-- A record filed under an open order that changes nothing about it. -/
  | note {m : OrderManager} (id : String) (order : Order) (at_ : Timestamp) (event : Event)
      (inert : event.inert)
      (filed : event.clientId? = some id ∨ event.clientId? = some order.clientId)
      (found : m.orders.get? id = some order) (live : order.status ∉ terminalStatuses) :
      Action start op m (m.record at_ event)
  /-- The gate refused an intent. -/
  | reject {m : OrderManager} (intent : OrderIntent) (env : SubmitEnv) (code : RejectCode)
      (detail : String) (asked : op = .submit intent env) :
      Action start op m
        (({ m with seq := m.seq + 1 }).rejectIntent (m.nextId env) intent code detail env).1
  /-- An intent passed the gate and was written down. -/
  | register {m : OrderManager} (intent : OrderIntent) (env : SubmitEnv) (quote : Quote) (ref : Int)
      (asked : op = .submit intent env) (quoted : env.quote = .ok quote)
      (passed : m.riskGate intent quote env = .ok ref) :
      Action start op m (({ m with seq := m.seq + 1 }).register (m.nextId env) intent ref env)
  /-- The gateway answered. -/
  | settle {m : OrderManager} (intent : OrderIntent) (env : SubmitEnv) (quote : Quote)
      (order settled : Order) (outcome : BrokerOutcome) (at_ : Timestamp)
      (asked : op = .submit intent env) (replied : (env.gateway order quote).reply = .ok outcome)
      (found : m.orders.get? order.clientId = some order) (pending : order.status = .pendingSubmit)
      (unbound : order.brokerOrderNo = none ∧ order.brokerOrgNo = none)
      (answered : settleOrder order outcome = .ok settled) :
      Action start op m { m with
        orders := m.orders.set order.clientId settled
        journal := m.journal ++
          [⟨at_, m.mode, .submitResult order.clientId outcome settled.status⟩] }
  /-- An UNKNOWN order took over its only matching row. -/
  | adopt {m : OrderManager} (id : String) (order : Order) (known : List String)
      (row : BrokerOrderStatus) (clock : Nat → Timestamp)
      (source : start.orders.get? id = some order) (found : m.orders.get? id = some order)
      (since : ∀ number ∈ knownNumbers start.orders, number ∈ known)
      (covers : Covers known m.orders) (unknown : order.status = .unknown)
      (single : candidates op.rows known order = [row]) :
      Action start op m { m with
        orders := m.orders.set id { order with
          brokerOrderNo := some row.brokerOrderNo, brokerOrgNo := some row.orgNo,
          brokerOrderTime := some row.orderTime }
        journal := m.journal ++ stamp m.mode clock
          [.unknownAdopted order.clientId row.brokerOrderNo row.orgNo row.orderTime] }
  /-- A bound open order took over its row's figures. -/
  | take {m : OrderManager} (id : String) (before order : Order) (row : BrokerOrderStatus)
      (paid : Ledger) (fills : List Event) (clock : Nat → Timestamp)
      (source : start.orders.get? id = some before)
      (adopts : Adopts op.rows (knownNumbers start.orders) before order)
      (found : m.orders.get? id = some order) (live : order.status ∉ terminalStatuses)
      (listed : rowOf op.rows order = some row) (low : order.filledQty ≤ row.filledQty)
      (high : row.filledQty ≤ order.intent.qty) (took : TakesFill m.ledger order row paid fills) :
      Action start op m { m with
        orders := m.orders.set id { order with
          filledQty := row.filledQty, filledAmountKrw := row.filledAmountKrw }
        ledger := paid
        journal := m.journal ++ stamp m.mode clock fills }
  /-- A bound open order took over its row's status. -/
  | restate {m : OrderManager} (id : String) (order : Order) (row : BrokerOrderStatus)
      (status : OrderStatus) (records : List Event) (clock : Nat → Timestamp)
      (found : m.orders.get? id = some order) (live : order.status ∉ terminalStatuses)
      (listed : rowOf op.rows order = some row) (level : order.filledQty = row.filledQty)
      (read : deriveStatus row (hasCancelChild op.rows order) = .ok status)
      (moved : transition order.status status = .ok status)
      (restates : Restates order status row.filledQty records) :
      Action start op m { m with
        orders := m.orders.set id { order with status }
        journal := m.journal ++ stamp m.mode clock records }
  /-- The operator retired an UNKNOWN order. -/
  | retire {m : OrderManager} (id reason : String) (order : Order) (at_ : Timestamp)
      (found : m.orders.get? id = some order) (unknown : order.status = .unknown)
      (unbound : order.brokerOrderNo = none) :
      Action start op m { m with
        orders := m.orders.set id { order with
          status := .rejected, rejectCode := some "unknown_resolved", rejectMessage := some reason }
        journal := m.journal ++ [⟨at_, m.mode, .unknownResolved id reason⟩] }

/-- A finite chain of actions of one operation. -/
abbrev Actions (start : OrderManager) (op : Op) : OrderManager → OrderManager → Prop :=
  Relation.ReflTransGen (Action start op)

/-! ### Every operation is a chain of actions -/

theorem covers_known (orders : Dict String Order) : Covers (knownNumbers orders) orders := by
  intro clientId order number found bound nonempty
  refine List.mem_filterMap.mpr ⟨order, Dict.mem_values_iff.mpr ⟨clientId, found⟩, ?_⟩
  simp [bound, nonempty]

/-- The first loop only ever adds to the numbers it knows. -/
theorem adopt_order_known (member : number ∈ known) :
    number ∈ (adoptOrder rows known order).state := by
  have visited := adopt_order_step rows known order
  generalize adoptOrder rows known order = visit at visited
  cases visited with
  | idle => exact member
  | ambiguous => exact member
  | adopted => exact List.mem_append_left _ member

private theorem adopt_order_covers
    {orders : Dict String Order} {id : String} (found : orders.get? id = some order)
    (covers : Covers known orders) :
    Covers (adoptOrder rows known order).state
      (orders.set id (adoptOrder rows known order).item) := by
  have visited := adopt_order_step rows known order
  generalize adoptOrder rows known order = visit at visited
  cases visited with
  | idle => rwa [Dict.set_same found]
  | ambiguous => rwa [Dict.set_same found]
  | adopted unknown row single =>
    intro probe other number held bound nonempty
    by_cases same : probe = id
    · subst same
      rw [Dict.get?_set_self] at held
      cases held
      cases bound
      simp
    · rw [Dict.get?_set_of_ne same] at held
      exact List.mem_append_left _ (covers probe other number held bound nonempty)

/-- A longer list of known numbers only rules out more rows. -/
theorem candidates_mono (since : ∀ number ∈ began, number ∈ known)
    (matched : row ∈ candidates rows known order) : row ∈ candidates rows began order := by
  obtain ⟨listed, fits⟩ := List.mem_filter.mp matched
  refine List.mem_filter.mpr ⟨listed, ?_⟩
  simp only [isCandidate, decide_eq_true_eq] at fits ⊢
  exact ⟨fun early => fits.1 (since _ early), fits.2⟩

private theorem adopt_order_adopts (since : ∀ number ∈ began, number ∈ known) (order : Order) :
    Adopts rows began order (adoptOrder rows known order).item := by
  have visited := adopt_order_step rows known order
  generalize adoptOrder rows known order = visit at visited
  cases visited with
  | idle => exact .kept
  | ambiguous => exact .kept
  | adopted unknown row single =>
    refine .bound unknown row ?_
    exact candidates_mono since (by simp [single])

section Reconcile
variable (m : OrderManager) (op : Op) (clock : Nat → Timestamp)

/-- The manager midway through `reconcile`. -/
def midway (ledger : Ledger) (orders : Dict String Order) (events : List Event) :
    OrderManager :=
  { m with orders, ledger, journal := m.journal ++ stamp m.mode clock events }

private theorem midway_more (ledger after : Ledger) (orders next : Dict String Order)
    (events more : List Event) :
    midway m clock after next (events ++ more) =
      { midway m clock ledger orders events with
        orders := next
        ledger := after
        journal := (midway m clock ledger orders events).journal ++
          stamp m.mode (fun tick => clock (tick + events.length)) more } := by
  simp [midway, stamp_append]

private theorem midway_note (ledger : Ledger) (orders : Dict String Order) (events : List Event)
    (event : Event) :
    midway m clock ledger orders (events ++ [event]) =
      (midway m clock ledger orders events).record (clock events.length) event := by
  simp [midway, stamp_append, stamp, OrderManager.record]

/-- The first loop, as far as it has come. -/
def Adopting (known : List String) (orders : Dict String Order) (events : List Event) :
    Prop :=
  (∀ number ∈ knownNumbers m.orders, number ∈ known) ∧ Covers known orders ∧
    Actions m op m (midway m clock m.ledger orders events)

variable {id : String}

theorem adopting_visit (source : m.orders.get? id = some order)
    (found : now.get? id = some order) (so_far : Adopting m op clock known now out) :
    Adopting m op clock (adoptOrder op.rows known order).state
      (now.set id (adoptOrder op.rows known order).item)
      (out ++ (adoptOrder op.rows known order).emitted) := by
  obtain ⟨since, covers, actions⟩ := so_far
  refine ⟨fun number member => adopt_order_known (since number member),
    adopt_order_covers found covers, ?_⟩
  have visited := adopt_order_step op.rows known order
  generalize adoptOrder op.rows known order = visit at visited
  cases visited with
  | idle =>
    rw [Dict.set_same found, List.append_nil]
    exact actions
  | ambiguous unknown several =>
    rw [Dict.set_same found, midway_note]
    exact actions.tail (.note id order _ _ rfl (.inr rfl) found (by rw [unknown]; decide))
  | adopted unknown row single =>
    rw [midway_more m clock m.ledger m.ledger now]
    exact actions.tail (.adopt id order known row _ source found since covers unknown single)

theorem adopting_start : Adopting m op clock (knownNumbers m.orders) m.orders [] := by
  refine ⟨fun _ member => member, covers_known m.orders, ?_⟩
  simp only [midway, stamp, List.append_nil]
  exact .refl

theorem adopted_actions :
    Adopting m op clock (m.orders.sweep (adoptOrder op.rows) (knownNumbers m.orders)).state
      (m.orders.sweep (adoptOrder op.rows) (knownNumbers m.orders)).items
      (m.orders.sweep (adoptOrder op.rows) (knownNumbers m.orders)).emitted :=
  Dict.sweep_invariant (Adopting m op clock)
    (fun _ _ _ _ _ source found so_far => adopting_visit m op clock source found so_far) []
    (adopting_start m op clock)

private theorem adopted_source
    (found : (m.orders.sweep (adoptOrder op.rows) (knownNumbers m.orders)).items.get? id = some order) :
    ∃ before, m.orders.get? id = some before ∧
      Adopts op.rows (knownNumbers m.orders) before order :=
  Dict.sweep_relation (fun _ => .kept)
    (fun _ _ (since : ∀ number ∈ knownNumbers m.orders, _) number member =>
      adopt_order_known (since number member))
    (fun _ order since => adopt_order_adopts since order) (fun _ member => member) found

/-- The second loop, as far as it has come. -/
def Applying (ledger : Ledger) (orders : Dict String Order) (events : List Event) : Prop :=
  Actions m op m (midway m clock ledger orders events)

theorem applying_taken {ledger paid : Ledger}
    (source : (m.orders.sweep (adoptOrder op.rows) (knownNumbers m.orders)).items.get? id = some order)
    (found : now.get? id = some order) (live : order.status ∉ terminalStatuses)
    (listed : rowOf op.rows order = some row) (low : order.filledQty ≤ row.filledQty)
    (high : row.filledQty ≤ order.intent.qty) (took : TakesFill ledger order row paid fills)
    (so_far : Applying m op clock ledger now out) :
    Applying m op clock paid (now.set id { order with
      filledQty := row.filledQty, filledAmountKrw := row.filledAmountKrw }) (out ++ fills) := by
  obtain ⟨before, original, adopts⟩ := adopted_source m op source
  apply Relation.ReflTransGen.tail so_far
  rw [midway_more m clock ledger paid now]
  exact .take id before order row paid fills _ original adopts found live listed low high took

private theorem applying_restated {ledger : Ledger}
    (found : now.get? id = some order) (live : order.status ∉ terminalStatuses)
    (listed : rowOf op.rows order = some row) (level : order.filledQty = row.filledQty)
    (read : deriveStatus row (hasCancelChild op.rows order) = .ok status)
    (moved : transition order.status status = .ok status)
    (restates : Restates order status row.filledQty records)
    (so_far : Applying m op clock ledger now out) :
    Applying m op clock ledger (now.set id { order with status }) (out ++ records) := by
  apply Relation.ReflTransGen.tail so_far
  rw [midway_more m clock ledger ledger now]
  exact .restate id order row status records _ found live listed level read moved restates

/-- An order holding its row's figures. -/
private def filledBy (order : Order) (row : BrokerOrderStatus) : Order :=
  { order with filledQty := row.filledQty, filledAmountKrw := row.filledAmountKrw }

private theorem status_records_restate (order : Order) (row : BrokerOrderStatus)
    (status : OrderStatus) (fills : List Event) :
    Restates (filledBy order row) status row.filledQty
      (statusRecords op.rows order row status fills) := by
  unfold statusRecords
  split
  · exact .recorded _
  · rename_i unchanged
    exact .silent (by_contra fun changed => unchanged (.inl changed))

theorem applying_visit (ledger : Ledger) (now : Dict String Order) (out : List Event)
    (id : String) (order : Order)
    (source : (m.orders.sweep (adoptOrder op.rows) (knownNumbers m.orders)).items.get? id = some order)
    (found : now.get? id = some order) (so_far : Applying m op clock ledger now out) :
    Applying m op clock (applyOrder op.rows ledger order).state
      (now.set id (applyOrder op.rows ledger order).item)
      (out ++ (applyOrder op.rows ledger order).emitted) := by
  have visited := apply_order_step op.rows ledger order
  generalize applyOrder op.rows ledger order = visit at visited
  cases visited with
  | idle =>
    rw [Dict.set_same found, List.append_nil]
    exact so_far
  | refused live row listed events err cause =>
    rw [Dict.set_same found]
    cases cause with
    | moved =>
      unfold Applying
      rw [midway_note]
      exact Relation.ReflTransGen.tail so_far (.note id order _ _ rfl (.inr rfl) found live)
    | unreadable => simpa using so_far
    | unpaid => simpa using so_far
  | stuck live row listed low high status read paid fills took =>
    exact applying_taken m op clock source found live listed low high took so_far
  | taken live row listed low high status read paid fills took moved =>
    have filled := applying_taken m op clock source found live listed low high took so_far
    have held : (now.set id (filledBy order row)).get? id = some (filledBy order row) :=
      Dict.get?_set_self _ _ _
    -- The status is written over the figures the order has just taken.
    have restated := applying_restated m op clock held live listed rfl read moved
      (status_records_restate op order row status fills) filled
    rw [Dict.set_set, List.append_assoc] at restated
    exact restated

theorem reconcile_actions (env : ReconcileEnv) (reads : op.rows = env.rows) :
    Actions m op m (m.reconcile env).1 := by
  unfold OrderManager.reconcile
  split
  · exact .refl
  · cases fetched : env.statuses with
    | error err => exact .refl
    | ok rows =>
      have same : op.rows = rows := by
        rw [reads, ReconcileEnv.rows, fetched]
        rfl
      subst same
      have applied := Dict.sweep_invariant (Applying m op env.clock)
        (applying_visit m op env.clock) _ (adopted_actions m op env.clock).2.2
      simp only
      split <;> exact applied

/-- A reconciliation that read its rows and still raised was stopped by the
second loop at one order, after a chain of actions. -/
theorem reconcile_raised
    (fetched : env.statuses = .ok rows) (raised : (m.reconcile env).2 = .error err) :
    err = .execution .sessionClosed ∨
      ∃ mid id order, Actions m (.reconcile env) m mid ∧ mid.orders.get? id = some order ∧
        (applyOrder rows mid.ledger order).stop = some err := by
  have same : (Op.reconcile env).rows = rows := by
    rw [Op.rows, ReconcileEnv.rows, fetched]
    rfl
  unfold OrderManager.reconcile at raised
  split at raised
  · cases raised
    exact .inl rfl
  · simp only [fetched, ← same] at raised
    split at raised
    · rename_i cause stopped
      cases raised
      obtain ⟨ledger, now, out, id, order, -, found, chain, stop⟩ :=
        Dict.sweep_stop (Applying m (.reconcile env) env.clock)
          (applying_visit m (.reconcile env) env.clock) _
          (adopted_actions m (.reconcile env) env.clock).2.2 stopped
      rw [same] at stop
      exact .inr ⟨midway m env.clock ledger now out, id, order, chain, found, stop⟩
    · cases raised

end Reconcile

private theorem gateway_notes {id : String} (found : m.orders.get? id = some order)
    (live : order.status ∉ terminalStatuses) (written : List (Timestamp × GatewayEvent)) :
    Actions start op m
      { m with journal := m.journal ++ gatewayRecords m.mode id written } := by
  induction written generalizing m with
  | nil =>
    simp only [gatewayRecords, List.map_nil, List.append_nil]
    exact .refl
  | cons line rest ih =>
    have first : Action start op m (m.record line.1 (.gateway id line.2)) :=
      .note id order line.1 _ rfl (.inl rfl) found live
    have later := ih (m := m.record line.1 (.gateway id line.2)) found
    apply Relation.ReflTransGen.head first
    simpa [gatewayRecords, OrderManager.record] using later

theorem send_actions (start m : OrderManager) (intent : OrderIntent) (quote : Quote) (ref : Int)
    (env : SubmitEnv) (quoted : env.quote = .ok quote)
    (passed : m.riskGate intent quote env = .ok ref) :
    Actions start (.submit intent env) m
      (({ m with seq := m.seq + 1 }).send (m.nextId env) intent quote ref env).1 := by
  let order := pendingOrder (m.nextId env) intent env
  let registered := ({ m with seq := m.seq + 1 }).register (m.nextId env) intent ref env
  have found : registered.orders.get? order.clientId = some order := Dict.get?_set_self _ _ _
  have live : order.status ∉ terminalStatuses :=
    (by decide : OrderStatus.pendingSubmit ∉ terminalStatuses)
  have written : Actions start (.submit intent env) m registered :=
    .single (.register intent env quote ref rfl quoted passed)
  have sent := written.trans (gateway_notes found live (env.gateway order quote).written)
  simp only [OrderManager.send]
  split
  · exact sent
  · rename_i outcome replied
    unfold OrderManager.settle
    split
    · exact sent
    · rename_i settled answered
      exact sent.tail (.settle intent env quote order settled outcome env.clock.resultAt rfl replied
        found rfl ⟨rfl, rfl⟩ answered)

theorem submit_actions (start m : OrderManager) (intent : OrderIntent) (env : SubmitEnv) :
    Actions start (.submit intent env) m (m.submit intent env).1 := by
  unfold OrderManager.submit
  split
  · exact .refl
  · split
    · exact .refl
    · rename_i quote quoted
      split
      · rename_i code detail refused
        exact .single (.reject intent env code detail rfl)
      · exact .single (.clerical (m.seq + 1) m.submitBlockReason m.closed (Nat.le_succ _))
      · rename_i ref passed
        exact send_actions start m intent quote ref env quoted passed

theorem cancel_actions (start m : OrderManager) (op : Op) (clientId : String) (env : CancelEnv) :
    Actions start op m (m.cancel clientId env).1 := by
  unfold OrderManager.cancel
  split
  · exact .refl
  · cases found : m.orders.get? clientId with
    | none => exact .refl
    | some order =>
      simp only
      split
      · exact .refl
      · rename_i live
        split
        · exact .refl
        · have asked : Actions start op m _ :=
            gateway_notes found live (env.gateway order).written
          split
          · exact asked
          · exact asked.tail (.note clientId order _ _ rfl (.inl rfl) found live)

theorem resolve_unknown_actions (m : OrderManager) (clientId reason : String) (env : ReconcileEnv)
    (recordedAt : Timestamp) :
    Actions m (.resolveUnknown clientId reason env recordedAt) m
      (m.resolveUnknown clientId reason env recordedAt).1 := by
  unfold OrderManager.resolveUnknown
  split
  · exact .refl
  · split
    · exact .refl
    · split
      · exact .refl
      · have listed := reconcile_actions m (.resolveUnknown clientId reason env recordedAt) env rfl
        split
        · rename_i after err raised
          rw [raised] at listed
          exact listed
        · rename_i after changed completed
          rw [completed] at listed
          split
          · exact listed
          · rename_i order found
            split
            · exact listed
            · rename_i unmatched
              have unknown : order.status = .unknown := by_contra fun other => unmatched (.inl other)
              have unbound : order.brokerOrderNo = none :=
                by_contra fun other => unmatched (.inr other)
              split
              · exact listed
              · rename_i status moved
                have retired := transition_ok moved
                subst retired
                exact listed.tail (.retire clientId reason order recordedAt found unknown unbound)

/-- Every operation, however it ends, is a chain of actions. -/
theorem step_actions (m : OrderManager) (op : Op) : Actions m op m (m.step op) := by
  cases op with
  | submit intent env => exact submit_actions m m intent env
  | cancel clientId env => exact cancel_actions m m (.cancel clientId env) clientId env
  | reconcile env => exact reconcile_actions m (.reconcile env) env rfl
  | resolveUnknown clientId reason env recordedAt =>
    exact resolve_unknown_actions m clientId reason env recordedAt
  | blockSubmits reason =>
    exact .single (.clerical m.seq (some reason) m.closed (Nat.le_refl _))
  | close =>
    exact .single (.clerical m.seq m.submitBlockReason true (Nat.le_refl _))

/-! ### What the actions append -/

/-- An action appends at most one record, under the manager's own mode. -/
theorem action_appends (action : Action start op m after) :
    after.mode = m.mode ∧ ∃ new : List Record, after.journal = m.journal ++ new ∧ new.length ≤ 1 ∧
      ∀ record ∈ new, record.mode = m.mode := by
  cases action with
  | clerical => exact ⟨rfl, [], by simp⟩
  | note id order at_ event => exact ⟨rfl, [⟨at_, m.mode, event⟩], rfl, by simp⟩
  | reject intent env code detail => exact ⟨rfl, [⟨_, _, _⟩], rfl, by simp⟩
  | register intent env quote ref => exact ⟨rfl, [⟨_, _, _⟩], rfl, by simp⟩
  | settle order settled outcome at_ => exact ⟨rfl, [⟨_, _, _⟩], rfl, by simp⟩
  | adopt id order known row clock => exact ⟨rfl, _, rfl, by simp [stamp]⟩
  | take id before order row paid fills clock source adopts found live listed low high took =>
    refine ⟨rfl, _, rfl, ?_⟩
    cases took <;> simp [stamp]
  | restate id order row status records clock found live listed level read moved restates =>
    refine ⟨rfl, _, rfl, ?_⟩
    cases restates <;> simp [stamp]
  | retire id reason order at_ => exact ⟨rfl, [⟨_, _, _⟩], rfl, by simp⟩

theorem action_modes (action : Action start op m after)
    (modes : ∀ record ∈ m.journal, record.mode = m.mode) :
    ∀ record ∈ after.journal, record.mode = after.mode := by
  obtain ⟨mode, new, appended, -, added⟩ := action_appends action
  rw [appended, mode]
  exact List.forall_mem_append.mpr ⟨modes, added⟩

theorem record_modes {m : OrderManager} (modes : ∀ record ∈ m.journal, record.mode = m.mode) :
    ∀ record ∈ (m.record at_ event).journal, record.mode = m.mode :=
  List.forall_mem_append.mpr ⟨modes, List.forall_mem_singleton.mpr rfl⟩

/-- No action changes how the session is configured. -/
theorem action_config (action : Action start op m after) :
    after.mode = m.mode ∧ after.costs = m.costs := by
  cases action <;> exact ⟨rfl, rfl⟩

/-- Every prefix of what a chain of actions appends is the journal of a
manager on the way: a process that dies after any append dies between two
actions. -/
theorem actions_cut (chain : Actions start op m after) :
    after.mode = m.mode ∧ ∃ new : List Record, after.journal = m.journal ++ new ∧
      (∀ record ∈ new, record.mode = m.mode) ∧
      ∀ count, ∃ mid, Actions start op m mid ∧ mid.journal = m.journal ++ new.take count := by
  induction chain with
  | refl => exact ⟨rfl, [], by simp, by simp, fun count => ⟨m, .refl, by simp⟩⟩
  | tail front action ih =>
    rename_i mid after
    obtain ⟨mode, new, appended, modes, cut⟩ := ih
    obtain ⟨next_mode, last, last_appended, single, last_modes⟩ := action_appends action
    refine ⟨next_mode.trans mode, new ++ last, by rw [last_appended, appended, List.append_assoc], ?_, ?_⟩
    · exact List.forall_mem_append.mpr ⟨modes, fun record late => (last_modes record late).trans mode⟩
    · intro count
      -- Either the cut falls before the last action's record, or after it.
      by_cases early : count ≤ new.length
      · rw [List.take_append_of_le_length early]
        exact cut count
      · refine ⟨after, front.tail action, ?_⟩
        rw [List.take_of_length_le (by rw [List.length_append]; omega), last_appended, appended,
          List.append_assoc]

/-- What one action preserves, a chain of them preserves. -/
theorem actions_preserve (Inv : OrderManager → Prop)
    (act : ∀ m after, Action start op m after → Inv m → Inv after)
    (chain : Actions start op m after) (holds : Inv m) : Inv after := by
  induction chain with
  | refl => exact holds
  | tail _ action ih => exact act _ _ action ih

/-- An invariant of every action holds along every run. -/
theorem run_invariant (Inv : OrderManager → Prop)
    (act : ∀ start op m after, Action start op m after → Inv m → Inv after)
    (holds : Inv m) (ops : List Op) : Inv (m.run ops) := by
  induction ops generalizing m with
  | nil => exact holds
  | cons op ops ih => exact ih (actions_preserve Inv (act m op) (step_actions m op) holds)

/-! ### A small session

Values for concrete runs: one symbol traded around 100 won, no fees. -/
namespace Sample

/-- 2026-09-11, nine o'clock. -/
def nine : Timestamp := 20707 * dayMicros + 32400000000

def quote : Quote where
  symbol := "005930"
  last := 100
  upperLimit := 130
  lowerLimit := 70
  tick := 1
  halted := false
  asks := [(100, 50)]
  bids := [(99, 50)]

def limits : RiskLimits where
  maxOrderNotionalKrw := 1000000
  maxPositionNotionalKrw := 1000000
  maxOrdersPerMinute := 10
  maxDailyLossKrw := 1000000

def free : CostModel := ⟨fun _ => 0, fun _ => 0⟩

/-- A limit order at 100 won. -/
def order (symbol : String) (side : Side) (qty : Int) : OrderIntent where
  symbol := symbol
  side := side
  qty := qty
  orderType := .limit
  limitPrice := some 100

/-- A submission at nine sharp whose gateway gives one fixed answer. -/
def answering (reply : Except Error BrokerOutcome) : SubmitEnv where
  quote := .ok quote
  orderableCash := fun _ => .ok 1000000
  killSwitch := false
  clock := ⟨nine, nine, nine, nine, nine, nine⟩
  gateway := fun _ _ => { reply }

def accepted (number : String) : SubmitEnv :=
  answering (.ok { kind := .accepted, brokerOrderNo := some number, brokerOrgNo := some "00950",
                   orderTime := some "090000" })

/-- A submission the broker never answered. -/
def unanswered : SubmitEnv := answering (.ok { kind := .unknown })

/-- A broker row of an order at 100 won. -/
def row (number symbol : String) (side : Side) (orderedQty filledQty filledAmountKrw : Int) :
    BrokerOrderStatus where
  brokerOrderNo := number
  originalOrderNo := ""
  orgNo := "00950"
  symbol := symbol
  side := side
  orderedQty := orderedQty
  price := 100
  filledQty := filledQty
  filledAmountKrw := filledAmountKrw
  remainingQty := orderedQty - filledQty
  rejectedQty := 0
  cancelled := false
  orderTime := "090000"

def listing (rows : List BrokerOrderStatus) : ReconcileEnv := ⟨.ok rows, fun _ => nine⟩

def opening (holdings : List Holding) : OrderManager where
  mode := .live
  limits := limits
  costs := free
  ledger := Ledger.ofHoldings free holdings
  journal := [⟨nine, .live, .sessionStart (some holdings) 0⟩]

/-- The id of the session's n-th submission. -/
def id (seq : Nat) : String := clientIdText .live nine seq

end Sample
end KrxAlpha
