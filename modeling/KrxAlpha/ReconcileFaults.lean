import KrxAlpha.CrashConsistency
import KrxAlpha.FillAccounting
import KrxAlpha.KisTrading

/-! Two things a reconciliation relies on without checking them. The status is derived from
the quantity the broker's row calls ordered, not from the order's own, so the row has to
name the order's quantity or else be filled to neither. And the ledger takes a fill before the
fill is journaled while the order takes it afterwards, so the append in between must not fail. -/
namespace KrxAlpha
open OrderManager

/-! ### The ordered quantity of a row -/

theorem derive_status_filled_iff (read : deriveStatus row child = .ok status) :
    status = .filled ↔ row.filledQty = row.orderedQty := by
  unfold deriveStatus at read
  split at read
  · cases read
  split at read
  · rename_i whole
    cases read
    simp [whole]
  · rename_i part
    simp only at read
    repeat' split at read
    all_goals
      cases read
      simp [part]

/-- An order that took its row is FILLED exactly when the row's two quantities agree. -/
theorem apply_order_filled_iff {ledger : Ledger} (live : order.status ∉ terminalStatuses)
    (listed : rowOf rows order = some row) (through : (applyOrder rows ledger order).stop = none) :
    (applyOrder rows ledger order).item.filledQty = row.filledQty ∧
      ((applyOrder rows ledger order).item.status = .filled ↔ row.filledQty = row.orderedQty) := by
  have visited := apply_order_step rows ledger order
  generalize applyOrder rows ledger order = visit at visited through
  cases visited with
  | idle skipped =>
    rcases skipped with terminal | unlisted
    · exact absurd terminal live
    · rw [listed] at unlisted
      cases unlisted
  | refused => cases through
  | stuck => cases through
  | taken _ found listedAs low high status read paid fills took moved =>
    rw [listed] at listedAs
    cases listedAs
    exact ⟨rfl, derive_status_filled_iff read⟩

/-- Neither loop of a reconciliation changes what was asked for, and the second leaves the
broker's number as the first set it. -/
theorem apply_order_keeps (rows : List BrokerOrderStatus) (ledger : Ledger) (order : Order) :
    (applyOrder rows ledger order).item.intent = order.intent ∧
      (applyOrder rows ledger order).item.brokerOrderNo = order.brokerOrderNo := by
  have visited := apply_order_step rows ledger order
  generalize applyOrder rows ledger order = visit at visited
  cases visited <;> exact ⟨rfl, rfl⟩

/-- A number may have been bound, and nothing else. -/
structure AsAsked (before after : Order) : Prop where
  intent : after.intent = before.intent
  status : after.status = before.status
  filledQty : after.filledQty = before.filledQty

theorem adopt_order_keeps (rows : List BrokerOrderStatus) (known : List String) (order : Order) :
    AsAsked order (adoptOrder rows known order).item := by
  have visited := adopt_order_step rows known order
  generalize adoptOrder rows known order = visit at visited
  cases visited <;> exact ⟨rfl, rfl, rfl⟩

variable {orders : Dict String Order}

private theorem adopted_keeps {id : String}
    (found : (orders.sweep (adoptOrder rows) known).items.get? id = some after) :
    ∃ before, orders.get? id = some before ∧ AsAsked before after :=
  Dict.sweep_relation (fun _ => ⟨rfl, rfl, rfl⟩) (fun _ _ (_ : True) => trivial)
    (fun known order _ => adopt_order_keeps rows known order) trivial found

/-- After a reconciliation that accepted the row of an open order, that FILLED means filled in full
comes to this: the row names the order's quantity as the ordered one, or it is filled neither to
its own ordered quantity nor to the order's. -/
theorem filled_iff_filled_in_full (m : OrderManager) (env : ReconcileEnv) {changed : List Order}
    (returned : (m.reconcile env).2 = .ok changed) {id : String} {before after : Order}
    (held : m.orders.get? id = some before) (live : before.status ∉ terminalStatuses)
    (kept : (m.reconcile env).1.orders.get? id = some after) {row : BrokerOrderStatus}
    (listed : rowOf env.rows after = some row) :
    (after.status = .filled ↔ after.filledQty = after.intent.qty) ↔
      (row.orderedQty = before.intent.qty ∨
        row.filledQty ≠ row.orderedQty ∧ row.filledQty ≠ before.intent.qty) := by
  obtain ⟨opened, fetched, through⟩ := reconcile_returned returned
  obtain ⟨_, result⟩ := reconcile_returns env opened fetched through
  rw [result] at kept
  obtain ⟨bound, adopted, ledger, visitThrough, same⟩ := Dict.sweep_went through kept
  obtain ⟨original, source, asked⟩ := adopted_keeps adopted
  rw [held] at source
  cases source
  obtain ⟨afterIntent, afterNumber⟩ := apply_order_keeps env.rows ledger bound
  rw [same] at afterIntent afterNumber
  have listedBound : rowOf env.rows bound = some row := by
    rwa [rowOf, afterNumber] at listed
  obtain ⟨filled, status⟩ := apply_order_filled_iff (asked.status ▸ live) listedBound visitThrough
  rw [same] at filled status
  rw [status, filled, afterIntent, asked.intent]
  omega

namespace Sample

/-- A row of the daily list with its number, its symbol and its side, and every figure blank. -/
def blankRow (number : String) : List (String × Json) :=
  dailyOrderFields.map fun field =>
    (field, .string (match field with
      | "odno" => number
      | "pdno" => "005930"
      | "sll_buy_dvsn_cd" => "02"
      | _ => ""))

/-- Ten shares bought at the broker under the number 1. -/
def bought : OrderManager := ((opening []).submit (order "005930" .buy 10) (accepted "1")).1

end Sample

theorem filled_iff_filled_in_full_bought :
    ∃ after, (Sample.bought.reconcile (Sample.listing [Sample.row "1" "005930" .buy 10 10 1000])).1.orders.get?
      (Sample.id 1) = some after ∧ (after.status = .filled ↔ after.filledQty = after.intent.qty) := by
  have live : OrderStatus.accepted ∉ terminalStatuses := by decide
  have held : Sample.bought.orders.get? (Sample.id 1) = some {
      clientId := Sample.id 1, intent := Sample.order "005930" .buy 10, status := .accepted
      createdAt := Sample.nine, brokerOrderNo := some "1", brokerOrgNo := some "00950"
      brokerOrderTime := some "090000" } := rfl
  exact ⟨_, rfl, (filled_iff_filled_in_full Sample.bought
    (Sample.listing [Sample.row "1" "005930" .buy 10 10 1000]) rfl held live rfl rfl).mpr (.inl rfl)⟩

/-- A listed row with blank figures makes an order FILLED of which nothing was filled, and a row
that names more than was ordered keeps an order that was filled in full from becoming FILLED. -/
theorem unchecked_ordered_quantity :
    (∃ rows after, getDailyOrders (fun _ => none) [Sample.blankRow "1"] = .ok rows ∧
      (Sample.bought.reconcile (Sample.listing rows)).1.orders.get? (Sample.id 1) = some after ∧
      after.status = .filled ∧ after.filledQty = 0 ∧ after.intent.qty = 10) ∧
    ∃ after, (Sample.bought.reconcile
        (Sample.listing [Sample.row "1" "005930" .buy 12 10 1000])).1.orders.get? (Sample.id 1) =
          some after ∧
      after.status = .partiallyFilled ∧ after.filledQty = after.intent.qty := by
  exact ⟨⟨_, _, rfl, rfl, rfl, rfl, rfl⟩, _, rfl, rfl, rfl⟩

/-! ### A journal that cannot be written -/

/-- What a reconciliation over a failing journal ends with. -/
inductive ReconcileFailure where
  | append (event : Event)
  | raised (err : Error)

/-- One append by a visit that has left a state and an item behind: the journal takes `left`
more records, and then the append raises. -/
def journaled {σ : Type} (left : Nat) (event : Event) (state : σ) (item : Order)
    (stop : Option ReconcileFailure) : Visit (σ × Nat) Order Event ReconcileFailure :=
  match left with
  | 0 => { state := (state, 0), item, stop := some (.append event) }
  | left + 1 => { state := (state, left), item, emitted := [event], stop }

namespace OrderManager

/-- The first loop's body over a journal with room for `left` records. -/
def adoptOrderOn (statuses : List BrokerOrderStatus) : List String × Nat → Order →
    Visit (List String × Nat) Order Event ReconcileFailure
  | (known, left), order =>
    if order.status ≠ .unknown then { state := (known, left), item := order }
    else match candidates statuses known order with
      | [] => { state := (known, left), item := order }
      | [row] =>
        journaled left (.unknownAdopted order.clientId row.brokerOrderNo row.orgNo row.orderTime)
          (known ++ [row.brokerOrderNo])
          { order with
            brokerOrderNo := some row.brokerOrderNo, brokerOrgNo := some row.orgNo,
            brokerOrderTime := some row.orderTime } none
      | rows =>
        journaled left (.unknownAmbiguous order.clientId (rows.map (·.brokerOrderNo))) known order none

/-- The rest of the second loop's body once the fill, if there is one, is journaled. -/
def settleRowOn (statuses : List BrokerOrderStatus) (ledger : Ledger) (left : Nat) (order : Order)
    (row : BrokerOrderStatus) (newStatus : OrderStatus) (fills : List Event) :
    Visit (Ledger × Nat) Order Event ReconcileFailure :=
  let filled := { order with filledQty := row.filledQty, filledAmountKrw := row.filledAmountKrw }
  match transition order.status newStatus with
  | .error err =>
    { state := (ledger, left), item := filled, emitted := fills, stop := some (.raised err) }
  | .ok status =>
    if status ≠ order.status ∨ fills ≠ [] then
      let visit := journaled left (.status order.clientId status (some row.filledQty) {
        cnclYn := row.cancelled, cancelChild := hasCancelChild statuses order,
        rmnQty := row.remainingQty, rejectedQty := row.rejectedQty }) ledger { filled with status } none
      { visit with emitted := fills ++ visit.emitted }
    else { state := (ledger, left), item := { filled with status }, emitted := fills }

/-- The second loop's body over a journal with room for `left` records. -/
def applyOrderOn (statuses : List BrokerOrderStatus) : Ledger × Nat → Order →
    Visit (Ledger × Nat) Order Event ReconcileFailure
  | (ledger, left), order =>
    if order.status ∈ terminalStatuses then { state := (ledger, left), item := order }
    else match rowOf statuses order with
      | none => { state := (ledger, left), item := order }
      | some row =>
        if row.filledQty < order.filledQty ∨ row.filledQty > order.intent.qty then
          journaled left (.integrityViolation order.clientId row.filledQty order.filledQty) ledger order
            (some (.raised (.brokerIntegrity (.cumulativeMoved row.filledQty))))
        else match deriveStatus row (hasCancelChild statuses order) with
          | .error err =>
            { state := (ledger, left), item := order, stop := some (.raised err) }
          | .ok newStatus =>
            let deltaQty := row.filledQty - order.filledQty
            let deltaAmount := row.filledAmountKrw - order.filledAmountKrw
            if deltaQty > 0 then
              match ledger.applyFill order.intent.symbol order.intent.side deltaQty deltaAmount with
              | .error err =>
                { state := (ledger, left), item := order, stop := some (.raised err) }
              | .ok (paid, _) =>
                let fill := .fill order.clientId deltaQty deltaAmount row.filledQty
                  (some row.filledAmountKrw)
                match left with
                | 0 => { state := (paid, 0), item := order, stop := some (.append fill) }
                | left + 1 => settleRowOn statuses paid left order row newStatus [fill]
            else settleRowOn statuses ledger left order row newStatus []

/-- `reconcile` with a journal that raises at the append after the first `left` ones. -/
def reconcileOn (m : OrderManager) (env : ReconcileEnv) (left : Nat) :
    OrderManager × Except ReconcileFailure (List Order) :=
  if m.closed then (m, .error (.raised (.execution .sessionClosed)))
  else match env.statuses with
    | .error err => (m, .error (.raised err))
    | .ok statuses =>
      let adopted := m.orders.sweep (adoptOrderOn statuses) (knownNumbers m.orders, left)
      match adopted.stop with
      | some failure =>
        ({ m with
          orders := adopted.items
          journal := m.journal ++ stamp m.mode env.clock adopted.emitted }, .error failure)
      | none =>
        let applied := adopted.items.sweep (applyOrderOn statuses) (m.ledger, adopted.state.2)
        let events := adopted.emitted ++ applied.emitted
        let after := { m with
          orders := applied.items
          ledger := applied.state.1
          journal := m.journal ++ stamp m.mode env.clock events }
        match applied.stop with
        | some failure => (after, .error failure)
        | none => (after, .ok ((changedIds events).filterMap after.orders.get?))

end OrderManager

def Event.isFill : Event → Bool
  | .fill .. => true
  | _ => false

/-- A visit over a journal with room for `left` records, in terms of the visit over one that
takes everything. At the append of a fill the order has not been touched yet. -/
inductive OnJournal {σ : Type} (visit : Visit σ Order Event Error) (before : Order) (left : Nat) :
    Visit (σ × Nat) Order Event ReconcileFailure → Prop where
  | room (fits : visit.emitted.length ≤ left) : OnJournal visit before left {
      state := (visit.state, left - visit.emitted.length), item := visit.item
      emitted := visit.emitted, stop := visit.stop.map .raised }
  | full (event : Event) (next : visit.emitted[left]? = some event) : OnJournal visit before left {
      state := (visit.state, 0), item := if event.isFill then before else visit.item
      emitted := visit.emitted.take left, stop := some (.append event) }

namespace OnJournal

variable {σ : Type} {visit : Visit σ Order Event Error} {before : Order} {left : Nat}

theorem quiet (silent : visit.emitted = []) : OnJournal visit before left {
    state := (visit.state, left), item := visit.item, stop := visit.stop.map .raised } := by
  obtain ⟨state, item, emitted, stop⟩ := visit
  cases silent
  exact @room _ ⟨state, item, [], stop⟩ before left (Nat.zero_le _)

theorem single (written : visit.emitted = [event]) (plain : event.isFill = false) :
    OnJournal visit before left
      (journaled left event visit.state visit.item (visit.stop.map .raised)) := by
  obtain ⟨state, item, emitted, stop⟩ := visit
  cases written
  cases left with
  | zero => simpa [plain, journaled] using @full _ ⟨state, item, [event], stop⟩ before 0 event rfl
  | succ left => exact @room _ ⟨state, item, [event], stop⟩ before (left + 1) (by simp)

/-- The records written before leave that much less room. -/
theorem behind (on : OnJournal visit before left result) (written : List Event) :
    OnJournal { visit with emitted := written ++ visit.emitted } before (left + written.length)
      { result with emitted := written ++ result.emitted } := by
  cases on with
  | room fits =>
    have fewer : left + written.length - (written ++ visit.emitted).length =
        left - visit.emitted.length := by
      rw [List.length_append]
      omega
    rw [← fewer]
    exact @room _ { visit with emitted := written ++ visit.emitted } _ _ (by
      simp only [List.length_append]
      omega)
  | full event next =>
    have there : (written ++ visit.emitted)[left + written.length]? = some event := by
      rw [List.getElem?_append_right (by omega)]
      simpa using next
    have taken : (written ++ visit.emitted).take (left + written.length) =
        written ++ visit.emitted.take left := by
      rw [Nat.add_comm, List.take_length_add_append]
    rw [← taken]
    exact @full _ { visit with emitted := written ++ visit.emitted } _ _ event there

/-- A failing journal holds nothing a whole one would not. -/
theorem written_of (on : OnJournal visit before left result) (written : event ∈ result.emitted) :
    event ∈ visit.emitted := by
  cases on with
  | room => exact written
  | full => exact List.mem_of_mem_take written

end OnJournal

section Visits

variable (statuses : List BrokerOrderStatus) (left : Nat) (order : Order)

theorem adopt_order_on (known : List String) :
    OnJournal (adoptOrder statuses known order) order left
      (adoptOrderOn statuses (known, left) order) := by
  unfold adoptOrder adoptOrderOn
  by_cases unknown : order.status = .unknown
  case neg =>
    simp only [unknown, ne_eq]
    exact .quiet rfl
  case pos =>
    simp only [unknown, ne_eq]
    rcases candidates statuses known order with _ | ⟨row, _ | ⟨second, others⟩⟩
    · exact .quiet rfl
    · exact .single rfl rfl
    · exact .single rfl rfl

private theorem settle_row_on (ledger : Ledger) (row : BrokerOrderStatus) (newStatus : OrderStatus)
    (fills : List Event) :
    OnJournal (settleRow statuses ledger order row newStatus fills) order (left + fills.length)
      (settleRowOn statuses ledger left order row newStatus fills) := by
  unfold settleRow settleRowOn
  cases transition order.status newStatus with
  | error err =>
    have on := (@OnJournal.quiet Ledger ⟨ledger, { order with
      filledQty := row.filledQty, filledAmountKrw := row.filledAmountKrw }, [], some err⟩ order left
      rfl).behind fills
    simpa using on
  | ok status =>
    let filled := { order with
      filledQty := row.filledQty, filledAmountKrw := row.filledAmountKrw, status }
    by_cases noted : status ≠ order.status ∨ fills ≠ []
    · simp only [noted, ↓reduceIte]
      exact (@OnJournal.single Ledger ⟨ledger, filled, [_], none⟩ order left _ rfl rfl).behind fills
    · simp only [noted, ↓reduceIte]
      simpa using (@OnJournal.quiet Ledger ⟨ledger, filled, [], none⟩ order left rfl).behind fills

private theorem settle_row_unjournaled (ledger : Ledger) (row : BrokerOrderStatus)
    (newStatus : OrderStatus) (isFill : fill.isFill = true) :
    OnJournal (settleRow statuses ledger order row newStatus [fill]) order 0
      { state := (ledger, 0), item := order, stop := some (.append fill) } := by
  have shape : (settleRow statuses ledger order row newStatus [fill]).state = ledger ∧
      (settleRow statuses ledger order row newStatus [fill]).emitted[0]? = some fill := by
    unfold settleRow
    cases transition order.status newStatus <;> simp
  have lost := @OnJournal.full _ _ order 0 fill shape.2
  simpa [isFill, shape.1] using lost

theorem apply_order_on (ledger : Ledger) :
    OnJournal (applyOrder statuses ledger order) order left
      (applyOrderOn statuses (ledger, left) order) := by
  unfold applyOrder applyOrderOn
  by_cases terminal : order.status ∈ terminalStatuses
  · simp only [terminal, ↓reduceIte]
    exact .quiet rfl
  simp only [terminal]
  cases rowOf statuses order with
  | none => exact .quiet rfl
  | some row =>
    by_cases moved : row.filledQty < order.filledQty ∨ row.filledQty > order.intent.qty
    · simp only [moved, ↓reduceIte]
      exact .single rfl rfl
    simp only [moved]
    cases deriveStatus row (hasCancelChild statuses order) with
    | error err => exact .quiet rfl
    | ok newStatus =>
      by_cases larger : row.filledQty - order.filledQty > 0
      · simp only [larger, ↓reduceIte]
        cases ledger.applyFill order.intent.symbol order.intent.side
            (row.filledQty - order.filledQty) (row.filledAmountKrw - order.filledAmountKrw) with
        | error err => exact .quiet rfl
        | ok result =>
          cases left with
          | zero => exact settle_row_unjournaled statuses order result.1 row newStatus rfl
          | succ left => exact settle_row_on statuses left order result.1 row newStatus _
      · simp only [larger, ↓reduceIte]
        exact settle_row_on statuses left order ledger row newStatus []

end Visits

/-! ### Room for every record -/

section Room

variable {σ : Type} {visit : σ → Order → Visit σ Order Event Error}
  {visitOn : σ × Nat → Order → Visit (σ × Nat) Order Event ReconcileFailure}

theorem OnJournal.of_room {visit : Visit σ Order Event Error}
    (on : OnJournal visit before left result) (fits : visit.emitted.length ≤ left) :
    result = {
      state := (visit.state, left - visit.emitted.length), item := visit.item
      emitted := visit.emitted, stop := visit.stop.map .raised } := by
  cases on with
  | room => rfl
  | full event next =>
    have inside := (List.getElem?_eq_some_iff.mp next).1
    omega

theorem OnJournal.of_full {visit : Visit σ Order Event Error}
    (on : OnJournal visit before left result) (due : visit.emitted[left]? = some event) :
    result.stop = some (.append event) := by
  cases on with
  | room fits =>
    rw [List.getElem?_eq_none fits] at due
    cases due
  | full other next =>
    rw [Option.some.inj (next.symm.trans due)]

section

variable
  (on : ∀ state left order, OnJournal (visit state order) order left (visitOn (state, left) order))
include on

private theorem visit_entry_room {entry : String × Order}
    (fits : (Dict.visitEntry visit state entry).emitted.length ≤ left) :
    Dict.visitEntry visitOn (state, left) entry = {
      state := ((Dict.visitEntry visit state entry).state,
        left - (Dict.visitEntry visit state entry).emitted.length)
      item := (Dict.visitEntry visit state entry).item
      emitted := (Dict.visitEntry visit state entry).emitted
      stop := (Dict.visitEntry visit state entry).stop.map .raised } := by
  rw [Dict.visitEntry, (on state left entry.2).of_room fits]
  rfl

private theorem sweep_entries_room (items : List (String × Order)) : ∀ (state : σ) (left : Nat),
    (sweep (Dict.visitEntry visit) state items).emitted.length ≤ left →
    sweep (Dict.visitEntry visitOn) (state, left) items =
      ⟨((sweep (Dict.visitEntry visit) state items).state,
          left - (sweep (Dict.visitEntry visit) state items).emitted.length),
        (sweep (Dict.visitEntry visit) state items).items,
        (sweep (Dict.visitEntry visit) state items).emitted,
        (sweep (Dict.visitEntry visit) state items).stop.map .raised⟩ := by
  induction items with
  | nil => exact fun _ _ _ => rfl
  | cons entry rest ih =>
    intro state left room
    cases stopped : (Dict.visitEntry visit state entry).stop with
    | some err =>
      rw [sweep_cons_stop stopped] at room ⊢
      have same := visit_entry_room on room
      rw [stopped] at same
      rw [sweep_cons_stop (congrArg Visit.stop same), same]
      rfl
    | none =>
      rw [sweep_cons_next stopped] at room ⊢
      simp only [List.length_append] at room
      have same := visit_entry_room on (Nat.le_trans (Nat.le_add_right _ _) room)
      rw [stopped] at same
      rw [sweep_cons_next (congrArg Visit.stop same), same]
      dsimp only
      rw [ih _ _ (Nat.le_sub_of_add_le' room)]
      simp only [List.length_append, Nat.sub_sub]

private theorem sweep_entries_full (items : List (String × Order)) : ∀ (state : σ) (left : Nat),
    (sweep (Dict.visitEntry visit) state items).emitted[left]? = some event →
    (sweep (Dict.visitEntry visitOn) (state, left) items).stop = some (.append event) := by
  induction items with
  | nil =>
    intro state left due
    cases due
  | cons entry rest ih =>
    intro state left due
    by_cases fits : (Dict.visitEntry visit state entry).emitted.length ≤ left
    · have same := visit_entry_room on fits
      cases stopped : (Dict.visitEntry visit state entry).stop with
      | some err =>
        rw [sweep_cons_stop stopped, List.getElem?_eq_none fits] at due
        cases due
      | none =>
        rw [stopped] at same
        rw [sweep_cons_next stopped, List.getElem?_append_right fits] at due
        rw [sweep_cons_next (congrArg Visit.stop same), same]
        exact ih _ _ due
    · have here : (visit state entry.2).emitted[left]? = some event := by
        cases stopped : (Dict.visitEntry visit state entry).stop with
        | some err => rwa [sweep_cons_stop stopped] at due
        | none =>
          rw [sweep_cons_next stopped] at due
          rwa [List.getElem?_append_left (Nat.lt_of_not_le fits)] at due
      have halted := (on state left entry.2).of_full here
      rw [sweep_cons_stop (show (Dict.visitEntry visitOn (state, left) entry).stop = _ from halted)]

/-- A pass over a journal with room for its records is the pass over one that never fails. -/
theorem sweep_on_room (orders : Dict String Order) (state : σ) (left : Nat)
    (room : (orders.sweep visit state).emitted.length ≤ left) :
    orders.sweep visitOn (state, left) =
      ⟨((orders.sweep visit state).state, left - (orders.sweep visit state).emitted.length),
        (orders.sweep visit state).items, (orders.sweep visit state).emitted,
        (orders.sweep visit state).stop.map .raised⟩ := by
  have whole := sweep_entries_room on orders.entries state left room
  simp only [Dict.sweep, whole]

/-- The record for which there is no room is the one at which the pass stops. -/
theorem sweep_on_append_iff (orders : Dict String Order) (state : σ) (left : Nat) :
    (orders.sweep visitOn (state, left)).stop = some (.append event) ↔
      (orders.sweep visit state).emitted[left]? = some event := by
  refine ⟨fun stopped => ?_, fun due => sweep_entries_full on orders.entries state left due⟩
  by_cases room : (orders.sweep visit state).emitted.length ≤ left
  · rw [sweep_on_room on orders state left room] at stopped
    cases plain : (orders.sweep visit state).stop <;> simp [plain] at stopped
  · obtain ⟨due, there⟩ : ∃ due, (orders.sweep visit state).emitted[left]? = some due :=
      ⟨_, List.getElem?_eq_getElem (Nat.lt_of_not_le room)⟩
    have halted := sweep_entries_full on orders.entries state left there
    rw [there, ReconcileFailure.append.inj (Option.some.inj (halted.symm.trans stopped))]

end

end Room

/-- The records a reconciliation has for a journal that takes them all. -/
def OrderManager.recordsDue (m : OrderManager) (env : ReconcileEnv) : List Event :=
  match m.closed, env.statuses with
  | false, .ok rows =>
    (m.orders.sweep (adoptOrder rows) (knownNumbers m.orders)).emitted ++
      (passes rows m.orders m.ledger).emitted
  | _, _ => []

section Due

variable (m : OrderManager) (env : ReconcileEnv)

/-- With room for every record a reconciliation over this journal is the order manager's. -/
theorem reconcile_on_room (room : (m.recordsDue env).length ≤ left) :
    m.reconcileOn env left = ((m.reconcile env).1, (m.reconcile env).2.mapError .raised) := by
  unfold OrderManager.recordsDue at room
  unfold reconcileOn OrderManager.reconcile
  cases closed : m.closed with
  | true => simp [Except.mapError]
  | false =>
    simp only [closed] at room ⊢
    cases fetched : env.statuses with
    | error err => rfl
    | ok rows =>
      simp only [fetched, List.length_append, passes] at room ⊢
      rw [sweep_on_room (fun known left order => adopt_order_on rows left order known) m.orders
        (knownNumbers m.orders) left (by omega)]
      simp only [adopt_stop]
      rw [sweep_on_room (fun ledger left order => apply_order_on rows left order ledger) _ m.ledger _
        (by omega)]
      cases stopped : ((m.orders.sweep (adoptOrder rows) (knownNumbers m.orders)).items.sweep
          (applyOrder rows) m.ledger).stop with
      | none => rfl
      | some err => rfl

/-- The append that fails is that of the record for which there is no room. -/
theorem reconcile_on_append_iff (left : Nat) (event : Event) :
    (m.reconcileOn env left).2 = .error (.append event) ↔ (m.recordsDue env)[left]? = some event := by
  unfold OrderManager.recordsDue reconcileOn
  cases closed : m.closed with
  | true => simp
  | false =>
    cases fetched : env.statuses with
    | error err => simp
    | ok rows =>
      simp only [Bool.false_eq_true, ↓reduceIte]
      by_cases room : (m.orders.sweep (adoptOrder rows) (knownNumbers m.orders)).emitted.length ≤ left
      · rw [sweep_on_room (fun known left order => adopt_order_on rows left order known) m.orders
          (knownNumbers m.orders) left room, List.getElem?_append_right room]
        simp only [adopt_stop, Option.map_none]
        rw [passes, ← sweep_on_append_iff fun ledger left order => apply_order_on rows left order ledger]
        split
        · rename_i stopped
          rw [stopped]
          simp
        · rename_i went
          rw [went]
          simp
      · have inside := Nat.lt_of_not_le room
        obtain ⟨due, there⟩ : ∃ due, (m.orders.sweep (adoptOrder rows)
            (knownNumbers m.orders)).emitted[left]? = some due := ⟨_, List.getElem?_eq_getElem inside⟩
        rw [List.getElem?_append_left inside, there,
          (sweep_on_append_iff (fun known left order => adopt_order_on rows left order known) m.orders
            (knownNumbers m.orders) left).mpr there]
        simp

end Due

/-! ### The books after a failed append -/

/-- The position follows the fills: it is what the session began with, and what was bought,
less what was sold. -/
def PositionFollows (initial : String → Int) (ledger : Ledger) (orders : Dict String Order) : Prop :=
  ∀ symbol, ledger.qty symbol = initial symbol + orders.total (Order.filledFor symbol .buy) -
    orders.total (Order.filledFor symbol .sell)

variable {initial : String → Int}

theorem position_follows_set {ledger paid : Ledger}
    {id : String} (found : now.get? id = some order) (asked : item.intent = order.intent)
    (moved : ∀ symbol, paid.qty symbol = ledger.qty symbol + if symbol = order.intent.symbol then
        Ledger.signedQty order.intent.side (item.filledQty - order.filledQty) else 0)
    (follows : PositionFollows initial ledger now) : PositionFollows initial paid (now.set id item) := by
  intro symbol
  rw [moved, follows symbol, Dict.total_set_present _ found, Dict.total_set_present _ found]
  simp only [Order.filledFor, asked]
  by_cases same : symbol = order.intent.symbol
  · subst same
    cases side : order.intent.side <;> simp [Ledger.signedQty]
    · omega
    · omega
  · simp [same, Ne.symm same]

section

variable (rows : List BrokerOrderStatus)
include rows

theorem apply_order_moves (ledger : Ledger) (order : Order) (symbol : String) :
    (applyOrder rows ledger order).state.qty symbol = ledger.qty symbol +
      if symbol = order.intent.symbol then Ledger.signedQty order.intent.side
        ((applyOrder rows ledger order).item.filledQty - order.filledQty) else 0 := by
  have unmoved : ∀ side, Ledger.signedQty side 0 = 0 := by
    intro side
    cases side <;> rfl
  have paid : ∀ {row paid fills}, TakesFill ledger order row paid fills →
      paid.qty symbol = ledger.qty symbol + if symbol = order.intent.symbol then
        Ledger.signedQty order.intent.side (row.filledQty - order.filledQty) else 0 := by
    intro row paid fills took
    cases took with
    | same equal => simp [equal, unmoved]
    | more larger _ pnl applied => exact Ledger.apply_fill_qty applied symbol
  have visited := apply_order_step rows ledger order
  generalize applyOrder rows ledger order = visit at visited
  cases visited with
  | idle => simp [unmoved]
  | refused => simp [unmoved]
  | taken _ _ _ _ _ _ _ _ _ took => exact paid took
  | stuck _ _ _ _ _ _ _ _ _ took => exact paid took

private theorem adopted_follows {ledger : Ledger} (known : List String) (left : Nat)
    (follows : PositionFollows initial ledger orders) :
    PositionFollows initial ledger (orders.sweep (adoptOrderOn rows) (known, left)).items := by
  refine Dict.sweep_invariant (fun _ now (_ : List Event) => PositionFollows initial ledger now)
    (fun state now _ id order _ found so_far => ?_) [] follows
  have asked : AsAsked order (adoptOrderOn rows state order).item := by
    obtain ⟨known, left⟩ := state
    have on := adopt_order_on rows left order known
    generalize adoptOrderOn rows (known, left) order = result at on
    cases on with
    | room => exact adopt_order_keeps rows known order
    | full event =>
      split
      · exact ⟨rfl, rfl, rfl⟩
      · exact adopt_order_keeps rows known order
  refine position_follows_set found asked.intent (fun symbol => ?_) so_far
  rw [asked.filledQty]
  cases order.intent.side <;> simp [Ledger.signedQty]

private theorem adopt_append_spared (known : List String) (left : Nat)
    (stopped : (orders.sweep (adoptOrderOn rows) (known, left)).stop = some (.append event)) :
    event.isFill = false := by
  obtain ⟨⟨known, left⟩, -, -, -, order, -, -, -, stop⟩ :=
    Dict.sweep_stop (fun _ _ (_ : List Event) => True) (fun _ _ _ _ _ _ _ _ => trivial) [] trivial stopped
  have on := adopt_order_on rows left order known
  generalize adoptOrderOn rows (known, left) order = result at on stop
  cases on with
  | room =>
    cases plain : (adoptOrder rows known order).stop <;> simp [plain] at stop
  | full other next =>
    cases stop
    have written := List.mem_of_getElem? next
    have visited := adopt_order_step rows known order
    generalize adoptOrder rows known order = visit at visited written
    cases visited with
    | idle => cases written
    | ambiguous =>
      cases List.mem_singleton.mp written
      rfl
    | adopted =>
      cases List.mem_singleton.mp written
      rfl

/-- An order has a fill to be journaled when the broker's row has more than it. -/
theorem fill_due_larger {ledger : Ledger} (written : event ∈ (applyOrder rows ledger order).emitted)
    (isFill : event.isFill = true) : order.filledQty < (applyOrder rows ledger order).item.filledQty := by
  have larger : ∀ {row paid fills}, TakesFill ledger order row paid fills →
      event ∈ fills → order.filledQty < row.filledQty := by
    intro row paid fills took inside
    cases took with
    | same => cases inside
    | more larger => exact larger
  have visited := apply_order_step rows ledger order
  generalize applyOrder rows ledger order = visit at visited written
  cases visited with
  | idle => cases written
  | refused _ row _ events err cause =>
    cases cause with
    | moved =>
      cases List.mem_singleton.mp written
      cases isFill
    | unreadable => cases written
    | unpaid => cases written
  | taken _ row _ _ _ status _ paid fills took =>
    refine larger took ((List.mem_append.mp written).resolve_right fun noted => ?_)
    unfold statusRecords at noted
    split at noted
    · cases List.mem_singleton.mp noted
      cases isFill
    · cases noted
  | stuck _ row _ _ _ status _ paid fills took => exact larger took written

/-- Where the append of a fill fails, the ledger has moved and the order has not. -/
private theorem unjournaled_fill_strays {ledger : Ledger} {id : String} (found : now.get? id = some order)
    (follows : PositionFollows initial ledger now)
    (larger : order.filledQty < (applyOrder rows ledger order).item.filledQty) :
    ¬ PositionFollows initial (applyOrder rows ledger order).state (now.set id order) := by
  intro wrong
  have before := follows order.intent.symbol
  have after := wrong order.intent.symbol
  rw [apply_order_moves, if_pos rfl, Dict.total_set_present _ found, Dict.total_set_present _ found] at after
  cases side : order.intent.side <;> simp only [side, Ledger.signedQty] at after <;> omega

private theorem applied_follows_iff
    {id : String} (found : now.get? id = some order) (follows : PositionFollows initial state.1 now) :
    PositionFollows initial (applyOrderOn rows state order).state.1
      (now.set id (applyOrderOn rows state order).item) ↔
    ∀ event, (applyOrderOn rows state order).stop = some (.append event) → event.isFill = false := by
  obtain ⟨ledger, left⟩ := state
  have taken := position_follows_set found (apply_order_keeps rows ledger order).1
    (apply_order_moves rows ledger order) follows
  have on := apply_order_on rows left order ledger
  generalize applyOrderOn rows (ledger, left) order = result at on
  cases on with
  | room =>
    refine ⟨fun _ event stopped => ?_, fun _ => taken⟩
    cases plain : (applyOrder rows ledger order).stop <;> simp [plain] at stopped
  | full event next =>
    cases isFill : event.isFill with
    | false =>
      refine ⟨fun _ other same => ?_, fun _ => taken⟩
      cases same
      exact isFill
    | true =>
      refine ⟨fun wrong => absurd wrong ?_, fun spared => ?_⟩
      · exact unjournaled_fill_strays rows found follows
          (fill_due_larger rows (List.mem_of_getElem? next) isFill)
      · rw [spared event rfl] at isFill
        cases isFill

private theorem applied_pass_follows_iff (state : Ledger × Nat)
    (follows : PositionFollows initial state.1 orders) :
    PositionFollows initial (orders.sweep (applyOrderOn rows) state).state.1
      (orders.sweep (applyOrderOn rows) state).items ↔
    ∀ event, (orders.sweep (applyOrderOn rows) state).stop = some (.append event) →
      event.isFill = false := by
  have ended := Dict.sweep_ends
    (fun (state : Ledger × Nat) now (_ : List Event) => PositionFollows initial state.1 now)
    (fun (failure : ReconcileFailure) state now _ => PositionFollows initial state.1 now ↔
      ∀ event, failure = .append event → event.isFill = false)
    (fun state now _ id order _ found so_far through =>
      (applied_follows_iff rows found so_far).mpr (by simp [through]))
    (fun state now _ id order failure _ found so_far stopped => by
      rw [applied_follows_iff rows found so_far, stopped]
      simp only [Option.some.injEq])
    [] follows
  cases stopped : (orders.sweep (applyOrderOn rows) state).stop with
  | none =>
    rw [stopped] at ended
    exact ⟨fun _ _ none => (by cases none), fun _ => ended⟩
  | some failure =>
    rw [stopped, Option.elim_some] at ended
    simpa only [Option.some.injEq] using ended

end

/-- The positions follow the fills over a journal that fails anywhere but at a fill. -/
theorem reconcile_on_follows_iff (m : OrderManager) (env : ReconcileEnv)
    (left : Nat) (follows : PositionFollows initial m.ledger m.orders) :
    PositionFollows initial (m.reconcileOn env left).1.ledger (m.reconcileOn env left).1.orders ↔
      ∀ event, (m.reconcileOn env left).2 = .error (.append event) → event.isFill = false := by
  unfold reconcileOn
  split
  · exact ⟨fun _ _ failed => (by cases failed), fun _ => follows⟩
  cases fetched : env.statuses with
  | error err => exact ⟨fun _ _ failed => (by cases failed), fun _ => follows⟩
  | ok rows =>
    have adopted := adopted_follows rows (knownNumbers m.orders) left follows
    cases failed : (m.orders.sweep (adoptOrderOn rows) (knownNumbers m.orders, left)).stop with
    | some failure =>
      refine ⟨fun _ event same => ?_, fun _ => by simpa only [failed] using adopted⟩
      simp only [failed] at same
      cases same
      exact adopt_append_spared rows _ _ failed
    | none =>
      simp only [failed]
      have applied := applied_pass_follows_iff rows
        (m.ledger, (m.orders.sweep (adoptOrderOn rows) (knownNumbers m.orders, left)).state.2) adopted
      split
      · rename_i failure stopped
        rw [stopped] at applied
        simpa only [Option.some.injEq, Except.error.injEq] using applied
      · rename_i through
        rw [through] at applied
        exact ⟨fun _ _ none => (by cases none), fun _ => applied.mpr fun _ none => by cases none⟩

/-- The positions follow the fills after a failed append, and whatever rows the next
reconciliation brings, it applies no fill a second time, exactly if the record whose append fails
is not a fill's. -/
theorem failed_append_keeps_positions (m : OrderManager) (initial : String → Int)
    (follows : PositionFollows initial m.ledger m.orders) (env : ReconcileEnv) (left : Nat) :
    (PositionFollows initial (m.reconcileOn env left).1.ledger (m.reconcileOn env left).1.orders ∧
      ∀ again, PositionFollows initial ((m.reconcileOn env left).1.reconcile again).1.ledger
        ((m.reconcileOn env left).1.reconcile again).1.orders) ↔
    ∀ event, (m.recordsDue env)[left]? = some event → event.isFill = false := by
  have once := reconcile_on_follows_iff m env left follows
  simp only [reconcile_on_append_iff] at once
  refine ⟨fun both => once.mp both.1, fun spared => ⟨once.mpr spared, fun again => ?_⟩⟩
  -- The second call is one over a journal with room for all it writes.
  have same := reconcile_on_room (m.reconcileOn env left).1 again (Nat.le_refl _)
  have twice := reconcile_on_follows_iff (m.reconcileOn env left).1 again
    ((m.reconcileOn env left).1.recordsDue again).length (once.mpr spared)
  rw [same] at twice
  refine twice.mpr fun event failed => ?_
  cases result : ((m.reconcileOn env left).1.reconcile again).2 <;>
    simp [result, Except.mapError] at failed

/-- Of ten shares four are reported filled, and the second append fails, that of the new status. -/
theorem failed_append_keeps_positions_status :
    PositionFollows (fun _ => 0)
      (Sample.bought.reconcileOn (Sample.listing [Sample.row "1" "005930" .buy 10 4 400]) 1).1.ledger
      (Sample.bought.reconcileOn (Sample.listing [Sample.row "1" "005930" .buy 10 4 400]) 1).1.orders := by
  refine ((failed_append_keeps_positions Sample.bought (fun _ => 0) (fun symbol => ?_)
    (Sample.listing [Sample.row "1" "005930" .buy 10 4 400]) 1).mpr ?_).1
  · have flat : Sample.bought.ledger.qty symbol = 0 := rfl
    have unfilled : ∀ side, Sample.bought.orders.total (Order.filledFor symbol side) = 0 := by
      intro side
      change (if "005930" = symbol ∧ Side.buy = side then (0 : Int) else 0) + 0 = 0
      rw [ite_self, Int.add_zero]
    rw [flat, unfilled, unfilled]
    rfl
  · intro event due
    cases due
    rfl

/-- The fill's own append fails: the ledger has four shares of which no order knows, and the next
reconciliation with the same rows buys them again. -/
theorem failed_fill_append_applies_twice :
    (Sample.bought.reconcileOn (Sample.listing [Sample.row "1" "005930" .buy 10 4 400])
        0).1.ledger.qty "005930" = 4 ∧
    (Sample.bought.reconcileOn (Sample.listing [Sample.row "1" "005930" .buy 10 4 400])
        0).1.filledQtyOf "005930" .buy = 0 ∧
    ((Sample.bought.reconcileOn (Sample.listing [Sample.row "1" "005930" .buy 10 4 400]) 0).1.reconcile
        (Sample.listing [Sample.row "1" "005930" .buy 10 4 400])).1.ledger.qty "005930" = 8 ∧
    ((Sample.bought.reconcileOn (Sample.listing [Sample.row "1" "005930" .buy 10 4 400]) 0).1.reconcile
        (Sample.listing [Sample.row "1" "005930" .buy 10 4 400])).1.filledQtyOf "005930" .buy = 4 := by
  decide

end KrxAlpha
