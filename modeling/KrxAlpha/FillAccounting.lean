import KrxAlpha.OrderLife

/-! Fills and positions. Over any run the ledger's quantities and the orders'
cumulative fills move together, an order's fill stays inside what was ordered,
and open sales never exceed the position they would be paid from. -/
namespace KrxAlpha
open OrderManager

/-- An order's part in what was filled for one symbol and side. -/
def Order.filledFor (symbol : String) (side : Side) (order : Order) : Int :=
  if order.intent.symbol = symbol ∧ order.intent.side = side then order.filledQty else 0

/-- Cumulative fills of all orders of one symbol and side. -/
def OrderManager.filledQtyOf (m : OrderManager) (symbol : String) (side : Side) : Int :=
  m.orders.total (Order.filledFor symbol side)

/-- An order that passed the gate is filled within its quantity; one that the
gate refused for its quantity is not filled at all. -/
def InRange (order : Order) : Prop :=
  0 ≤ order.filledQty ∧ (order.filledQty ≤ order.intent.qty ∨
    order.status = .rejected ∧ order.intent.qty < 1 ∧ order.filledQty = 0)

/-- A session's books: properly filed, every fill in range. An empty book
qualifies, and so does a restored one. -/
structure SoundBooks (m : OrderManager) : Prop where
  filed : Filed m
  ranged : ∀ {id order}, m.orders.get? id = some order → InRange order

theorem sound_of_empty (empty : m.orders = ∅) : SoundBooks m where
  filed := filed_of_empty empty
  ranged found := by simp [empty] at found

private theorem in_range_open (ranged : InRange order)
    (live : order.status ≠ .rejected) : 0 ≤ order.filledQty ∧ order.filledQty ≤ order.intent.qty :=
  ⟨ranged.1, ranged.2.resolve_right fun refused => live refused.1⟩

private theorem in_range_step (step : OrderStep before after)
    (ranged : InRange before) : InRange after := by
  cases step with
  | same => exact ranged
  | settled pending unbound outcome after answered =>
    obtain ⟨low, high⟩ := in_range_open ranged (by rw [pending]; decide)
    rcases settle_order_pending pending answered with ⟨-, rfl⟩ | ⟨-, rfl⟩ | ⟨-, rfl⟩ <;>
      exact ⟨low, .inl high⟩
  | adopted unknown row => exact ranged
  | took live bound row low high => exact ⟨Int.le_trans ranged.1 low, .inl high⟩
  | restated live bound status known =>
    obtain ⟨low, high⟩ := in_range_open ranged fun rejected => live (by rw [rejected]; decide)
    exact ⟨low, .inl high⟩
  | retired unknown unbound reason =>
    obtain ⟨low, high⟩ := in_range_open ranged (by rw [unknown]; decide)
    exact ⟨low, .inl high⟩

section Actions
variable {start m after : OrderManager} {op : Op}

theorem action_sound (action : Action start op m after) (sound : SoundBooks m) :
    SoundBooks after := by
  refine ⟨action_filed action sound.filed, ?_⟩
  intro id order found
  cases action_writes action with
  | nothing same => exact sound.ranged (same ▸ found)
  | opened env opened named unfilled checked counted written =>
    have ranged : InRange opened := by
      refine ⟨by omega, ?_⟩
      rcases checked with refused | ⟨-, positive, -⟩
      · by_cases positive : 1 ≤ opened.intent.qty
        · exact .inl (by omega)
        · exact .inr ⟨refused, by omega, unfilled⟩
      · exact .inl (by omega)
    rw [written] at found
    exact Dict.forall_set (P := fun _ now => InRange now) ranged (fun _ _ => sound.ranged) id order
      found
  | moved key before moved held step written =>
    have ranged := in_range_step step (sound.ranged held)
    rw [written] at found
    exact Dict.forall_set (P := fun _ now => InRange now) ranged (fun _ _ => sound.ranged) id order
      found

private theorem filled_for_step (step : OrderStep before order) (symbol : String) (side : Side) :
    order.filledFor symbol side = before.filledFor symbol side +
      if before.intent.symbol = symbol ∧ before.intent.side = side then
        order.filledQty - before.filledQty else 0 := by
  simp only [Order.filledFor, (order_step_identity step).2.1]
  split <;> omega

/-- A position moves by exactly what the symbol's orders took. -/
theorem action_balance (action : Action start op m after) (sound : SoundBooks m)
    (symbol : String) :
    after.ledger.qty symbol - after.filledQtyOf symbol .buy + after.filledQtyOf symbol .sell =
      m.ledger.qty symbol - m.filledQtyOf symbol .buy + m.filledQtyOf symbol .sell := by
  cases action_writes action with
  | nothing same still => simp only [filledQtyOf, same, still]
  | opened env order named unfilled checked counted written still =>
    have fresh := next_id_fresh sound.filed env
    have empty : ∀ side, order.filledFor symbol side = 0 := by
      intro side
      simp [Order.filledFor, unfilled]
    simp only [filledQtyOf, written, still, Dict.total_set_new _ fresh, empty, Int.add_zero]
  | moved id before order found step written ledger =>
    simp only [filledQtyOf, written, Dict.total_set_present _ found, ledger symbol,
      filled_for_step step symbol]
    -- Only the order's own symbol and side move, and both totals move alike.
    by_cases same : symbol = before.intent.symbol
    · subst same
      cases side : before.intent.side <;> simp [Ledger.signedQty]
      · omega
      · omega
    · simp [same, Ne.symm same]

end Actions

/-- Along every run, reconciliations that raise midway included, positions
follow the cumulative fills. -/
theorem run_balance (sound : SoundBooks m) (ops : List Op) (symbol : String) :
    SoundBooks (m.run ops) ∧
      (m.run ops).ledger.qty symbol - (m.run ops).filledQtyOf symbol .buy +
          (m.run ops).filledQtyOf symbol .sell =
        m.ledger.qty symbol - m.filledQtyOf symbol .buy + m.filledQtyOf symbol .sell := by
  refine run_invariant (fun now => SoundBooks now ∧
    now.ledger.qty symbol - now.filledQtyOf symbol .buy + now.filledQtyOf symbol .sell =
      m.ledger.qty symbol - m.filledQtyOf symbol .buy + m.filledQtyOf symbol .sell) ?_
    ⟨sound, rfl⟩ ops
  rintro start op now after action ⟨now_sound, balanced⟩
  exact ⟨action_sound action now_sound, (action_balance action now_sound symbol).trans balanced⟩

theorem run_sound (sound : SoundBooks m) (ops : List Op) : SoundBooks (m.run ops) :=
  run_invariant SoundBooks (fun _ _ _ _ action now => action_sound action now) sound ops

/-- Fills only grow, and a finished order is never touched again. -/
structure Grows (before after : Order) : Prop where
  fill : before.filledQty ≤ after.filledQty
  frozen : before.status ∈ terminalStatuses → after = before

private theorem grows_step (step : OrderStep before after) : Grows before after := by
  cases step with
  | same => exact ⟨Int.le_refl _, fun _ => rfl⟩
  | settled pending unbound outcome after answered =>
    refine ⟨?_, fun terminal => by simp [pending, terminalStatuses] at terminal⟩
    rcases settle_order_pending pending answered with ⟨-, rfl⟩ | ⟨-, rfl⟩ | ⟨-, rfl⟩ <;>
      exact Int.le_refl _
  | adopted unknown row =>
    exact ⟨Int.le_refl _, fun terminal => by simp [unknown, terminalStatuses] at terminal⟩
  | took live bound row low high => exact ⟨low, fun terminal => absurd terminal live⟩
  | restated live bound status known => exact ⟨Int.le_refl _, fun terminal => absurd terminal live⟩
  | retired unknown unbound reason =>
    exact ⟨Int.le_refl _, fun terminal => by simp [unknown, terminalStatuses] at terminal⟩

theorem run_grows (filed : Filed m) {id : String}
    (found : m.orders.get? id = some order) (ops : List Op) :
    ∃ later, (m.run ops).orders.get? id = some later ∧ Grows order later := by
  refine run_order (fun _ => ⟨Int.le_refl _, fun _ => rfl⟩) ?_ filed found ops
  intro first middle last so_far step
  have next := grows_step step
  refine ⟨Int.le_trans so_far.fill next.fill, fun terminal => ?_⟩
  have same := so_far.frozen terminal
  rw [next.frozen (same ▸ terminal), same]

/-- Exactly-once fills: over any run from sound books, positions move by the
fills of the symbol's orders, every fill stays in range, fills never shrink and
a finished order is never modified again. -/
theorem fills_applied_exactly_once (m : OrderManager) (sound : SoundBooks m) (ops : List Op) :
    (∀ symbol, (m.run ops).ledger.qty symbol - m.ledger.qty symbol =
      ((m.run ops).filledQtyOf symbol .buy - m.filledQtyOf symbol .buy) -
        ((m.run ops).filledQtyOf symbol .sell - m.filledQtyOf symbol .sell)) ∧
    (∀ id order, (m.run ops).orders.get? id = some order → InRange order) ∧
    ∀ id order, (m.run ops).orders.get? id = some order → ∀ later : List Op,
      ∃ kept, ((m.run ops).run later).orders.get? id = some kept ∧
        order.filledQty ≤ kept.filledQty ∧ (order.status ∈ terminalStatuses → kept = order) := by
  have after := run_sound sound ops
  refine ⟨fun symbol => ?_, fun id order found => after.ranged found, ?_⟩
  · have balanced := (run_balance sound ops symbol).2
    omega
  · intro id order found later
    obtain ⟨kept, held, grown⟩ := run_grows after.filed found later
    exact ⟨kept, held, grown.fill, grown.frozen⟩

/-- Four of ten shares reported filled move the position by four. -/
theorem fills_applied_exactly_once_partial :
    ((Sample.opening []).run [.submit (Sample.order "005930" .buy 10) (Sample.accepted "1"),
      .reconcile (Sample.listing [Sample.row "1" "005930" .buy 10 4 400])]).ledger.qty "005930" =
        4 := by
  have moved := (fills_applied_exactly_once (Sample.opening []) (sound_of_empty rfl)
    [.submit (Sample.order "005930" .buy 10) (Sample.accepted "1"),
      .reconcile (Sample.listing [Sample.row "1" "005930" .buy 10 4 400])]).1 "005930"
  have bought : ((Sample.opening []).run [.submit (Sample.order "005930" .buy 10)
      (Sample.accepted "1"), .reconcile (Sample.listing [Sample.row "1" "005930" .buy 10 4
        400])]).filledQtyOf "005930" .buy = 4 := by decide
  have sold : ((Sample.opening []).run [.submit (Sample.order "005930" .buy 10)
      (Sample.accepted "1"), .reconcile (Sample.listing [Sample.row "1" "005930" .buy 10 4
        400])]).filledQtyOf "005930" .sell = 0 := by decide
  have before : (Sample.opening []).ledger.qty "005930" = 0 := by decide
  have none_bought : (Sample.opening []).filledQtyOf "005930" .buy = 0 := rfl
  have none_sold : (Sample.opening []).filledQtyOf "005930" .sell = 0 := rfl
  omega

/-- An intent for minus one share is refused and registered with nothing
filled, which is not between zero and minus one. -/
theorem refused_order_outside_quantity :
    ∃ id order, ((Sample.opening []).run
        [.submit (Sample.order "005930" .buy (-1)) (Sample.accepted "1")]).orders.get? id =
          some order ∧ order.status = .rejected ∧
      ¬ (0 ≤ order.filledQty ∧ order.filledQty ≤ order.intent.qty) :=
  ⟨Sample.id 1, _, rfl, by decide, by decide⟩

/-! ### Open sales -/

/-- An order's part in what is still open for one symbol and side. -/
def Order.openFor (symbol : String) (side : Side) (order : Order) : Int :=
  if order.status ∉ terminalStatuses ∧ order.intent.symbol = symbol ∧ order.intent.side = side then
    order.remainingQty else 0

theorem open_qty_total (m : OrderManager) (symbol : String) (side : Side) :
    m.openQty symbol side = m.orders.total (Order.openFor symbol side) := by
  simp only [openQty, openOrders, List.filter_filter, Dict.sum_filter_eq_total]
  congr 1
  funext order
  simp only [Order.openFor, open_iff_not_terminal, Bool.and_eq_true, decide_eq_true_eq]
  congr 1
  exact propext ⟨fun ⟨side, symbol, live⟩ => ⟨live, symbol, side⟩,
    fun ⟨live, symbol, side⟩ => ⟨side, symbol, live⟩⟩

private theorem open_for_nonneg (ranged : InRange order) (symbol : String)
    (side : Side) : 0 ≤ order.openFor symbol side := by
  unfold Order.openFor
  split
  · rename_i counted
    have live : order.status ≠ .rejected := fun rejected => counted.1 (by rw [rejected]; decide)
    have high := (in_range_open ranged live).2
    simp only [Order.remainingQty]
    omega
  · exact Int.le_refl _

private theorem open_for_step (step : OrderStep before order)
    (ranged : InRange before) (symbol : String) (side : Side) :
    order.openFor symbol side ≤ before.openFor symbol side -
      if before.intent.symbol = symbol ∧ before.intent.side = side then
        order.filledQty - before.filledQty else 0 := by
  have grown := grows_step step
  have after_range := in_range_step step ranged
  by_cases terminal : before.status ∈ terminalStatuses
  · have same := grown.frozen terminal
    simp [same]
  · have live : before.status ≠ .rejected := fun rejected => terminal (by rw [rejected]; decide)
    obtain ⟨-, high⟩ := in_range_open ranged live
    have intent := (order_step_identity step).2.1
    have fill := grown.fill
    simp only [Order.openFor, terminal, not_false_eq_true, true_and, intent, Order.remainingQty]
    by_cases counted : before.intent.symbol = symbol ∧ before.intent.side = side
    · simp only [counted, and_self, and_true, ↓reduceIte]
      split
      · omega
      · have low := ranged.1
        rcases after_range.2 with within | ⟨-, -, empty⟩
        · rw [intent] at within
          omega
        · omega
    · simp only [counted, and_false, ↓reduceIte]
      omega

/-- Sound books whose open sales the positions cover. -/
structure Covered (m : OrderManager) : Prop where
  sound : SoundBooks m
  sales : ∀ symbol, m.openQty symbol .sell ≤ m.ledger.qty symbol

theorem action_covered
    (action : Action start op m after) (covered : Covered m) : Covered after := by
  refine ⟨action_sound action covered.sound, fun symbol => ?_⟩
  have cover := covered.sales symbol
  rw [open_qty_total] at cover ⊢
  cases action_writes action with
  | nothing same still => rwa [same, still]
  | opened env order named unfilled checked counted written still =>
    rw [written, still, Dict.total_set_new _ (next_id_fresh covered.sound.filed env)]
    unfold Order.openFor at cover ⊢
    split
    · rename_i here
      rcases checked with refused | ⟨-, -, room⟩
      · exact absurd (by rw [refused]; decide) here.1
      · have room := room here.2.2
        rw [here.2.1, open_qty_total] at room
        unfold Order.openFor at room
        simp only [Order.remainingQty, unfilled] at *
        omega
    · simpa using cover
  | moved id before order found step written ledger =>
    rw [written, Dict.total_set_present _ found, ledger symbol]
    have opened := open_for_step step (covered.sound.ranged found) symbol .sell
    have fill := (grows_step step).fill
    by_cases same : symbol = before.intent.symbol
    · subst same
      cases side : before.intent.side <;> simp [side, Ledger.signedQty] at opened ⊢ <;> omega
    · simp [same, Ne.symm same] at opened ⊢
      omega

private theorem apply_fill_refusal (covered : Covered m) {id : String}
    (found : m.orders.get? id = some order) (live : order.status ∉ terminalStatuses)
    (within : quantity ≤ order.remainingQty)
    (failed : m.ledger.applyFill order.intent.symbol order.intent.side quantity amount = .error err) :
    err = .brokerIntegrity (.invalidFill quantity amount) := by
  by_cases valid : quantity ≤ 0 ∨ amount < 0
  · simp only [Ledger.applyFill, valid, ↓reduceIte] at failed
    exact (Except.error.inj failed).symm
  · cases side : order.intent.side with
    | buy =>
      obtain ⟨paid, passed⟩ : ∃ paid, m.ledger.applyFill order.intent.symbol .buy quantity amount =
          .ok (paid, 0) := Ledger.apply_fill_buy (by omega) (by omega)
      rw [side, passed] at failed
      cases failed
    | sell =>
      have share : order.openFor order.intent.symbol .sell ≤ m.ledger.qty order.intent.symbol := by
        have cover := covered.sales order.intent.symbol
        rw [open_qty_total] at cover
        exact Int.le_trans (Dict.le_total
          (fun _ other held => open_for_nonneg (covered.sound.ranged held) _ _) found) cover
      simp only [Order.openFor, live, not_false_eq_true, side, and_self, ↓reduceIte] at share
      obtain ⟨paid, pnl, passed⟩ : ∃ paid pnl,
          m.ledger.applyFill order.intent.symbol .sell quantity amount = .ok (paid, pnl) :=
        Ledger.apply_fill_sell (by omega) (by omega) (by omega)
      rw [side, passed] at failed
      cases failed

private theorem apply_order_refusal (covered : Covered m) {id : String}
    (found : m.orders.get? id = some order)
    (stopped : (applyOrder rows m.ledger order).stop = some err) :
    (∀ symbol qty, err ≠ .brokerIntegrity (.oversell symbol qty)) ∧ err ≠ .zeroDivision := by
  have visited := apply_order_step rows m.ledger order
  generalize applyOrder rows m.ledger order = visit at visited stopped
  cases visited with
  | idle => cases stopped
  | taken => cases stopped
  | refused live row found_row events cause refusal =>
    cases stopped
    cases refusal with
    | moved => exact ⟨by simp, by simp⟩
    | unreadable _ failed =>
      rw [derive_status_error failed]
      exact ⟨by simp, by simp⟩
    | unpaid _ low high failed =>
      have within : row.filledQty - order.filledQty ≤ order.remainingQty := by
        simp only [Order.remainingQty]
        omega
      rw [apply_fill_refusal covered found live within failed]
      exact ⟨by simp, by simp⟩
  | stuck live row found_row low high status read paid fills took cause illegal =>
    cases stopped
    rw [transition_error illegal]
    exact ⟨by simp, by simp⟩

theorem run_covered (covered : Covered m) (ops : List Op) : Covered (m.run ops) :=
  run_invariant Covered (fun _ _ _ _ action now => action_covered action now) covered ops

/-- With nothing on sale, long positions cover the sales. -/
theorem covered_of_no_sales (sound : SoundBooks m) (long : ∀ symbol, 0 ≤ m.ledger.qty symbol)
    (flat : ∀ id order, m.orders.get? id = some order → order.intent.side = .sell →
      order.status ∈ terminalStatuses) : Covered m := by
  refine ⟨sound, fun symbol => ?_⟩
  have nothing : m.openQty symbol .sell = 0 := by
    rw [open_qty_total, Dict.total]
    apply List.sum_eq_zero
    intro part member
    obtain ⟨order, held, rfl⟩ := List.mem_map.mp member
    obtain ⟨id, found⟩ := Dict.mem_values_iff.mp held
    unfold Order.openFor
    split
    · rename_i counted
      exact absurd (flat id order found counted.2.2) counted.1
    · rfl
  rw [nothing]
  exact long symbol

/-- No oversell: from positions with no open sales, every reachable state has
its open sales covered, so no list of broker rows brings a reconciliation to
the oversell branch or to a division by zero. -/
theorem sales_never_exceed_position (m : OrderManager) (sound : SoundBooks m)
    (long : ∀ symbol, 0 ≤ m.ledger.qty symbol)
    (flat : ∀ id order, m.orders.get? id = some order → order.intent.side = .sell →
      order.status ∈ terminalStatuses) (ops : List Op) :
    (∀ symbol, (m.run ops).openQty symbol .sell ≤ (m.run ops).ledger.qty symbol) ∧
    ∀ env rows err, env.statuses = .ok rows → ((m.run ops).reconcile env).2 = .error err →
      (∀ symbol qty, err ≠ .brokerIntegrity (.oversell symbol qty)) ∧ err ≠ .zeroDivision := by
  have covered := run_covered (covered_of_no_sales sound long flat) ops
  refine ⟨covered.sales, fun env rows err fetched raised => ?_⟩
  rcases reconcile_raised (m.run ops) fetched raised with closed | ⟨mid, id, order, chain, found, stop⟩
  · subst closed
    exact ⟨by simp, by simp⟩
  · have reached : Covered mid :=
      actions_preserve Covered (fun _ _ action now => action_covered action now) chain covered
    exact apply_order_refusal reached found stop

/-- Seven of ten held shares are on sale, and a second sale of seven is refused. -/
theorem sales_never_exceed_position_held :
    ((Sample.opening [⟨"005930", 10, 900⟩]).run
      [.submit (Sample.order "005930" .sell 7) (Sample.accepted "1"),
        .submit (Sample.order "005930" .sell 7) (Sample.accepted "2")]).openQty "005930" .sell ≤
    ((Sample.opening [⟨"005930", 10, 900⟩]).run
      [.submit (Sample.order "005930" .sell 7) (Sample.accepted "1"),
        .submit (Sample.order "005930" .sell 7) (Sample.accepted "2")]).ledger.qty "005930" := by
  refine (sales_never_exceed_position (Sample.opening [⟨"005930", 10, 900⟩]) (sound_of_empty rfl) ?_
    (fun id order found => by cases found) _).1 "005930"
  intro symbol
  by_cases held : symbol = "005930"
  · subst held
    decide
  · simp [Sample.opening, Ledger.ofHoldings, Ledger.qty, Dict.ofList, Dict.get?_set, held]

end KrxAlpha
