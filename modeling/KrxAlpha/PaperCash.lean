import KrxAlpha.OrderLife
import KrxAlpha.PaperGateway

/-! Paper buying power. The gate compares a purchase with the cash less what
is held back for unfilled rests, but a simulated fill is debited only when the
next reconciliation meets it. Cash stays covered as long as what is held back
at each purchase makes up for the fills still to be debited. -/
namespace KrxAlpha
open OrderManager

/-- No level is offered above the day's limit, none in a negative size. -/
def FairQuote (quote : Quote) : Prop :=
  ∀ level ∈ quote.asks, 0 ≤ level.2 ∧ level.1 ≤ quote.upperLimit

instance (quote : Quote) : Decidable (FairQuote quote) :=
  inferInstanceAs (Decidable (∀ level ∈ quote.asks, 0 ≤ level.2 ∧ level.1 ≤ quote.upperLimit))

/-- Fees grow with the amount, and a sale's never exceed it. -/
structure FairCosts (costs : CostModel) : Prop where
  charged : ∀ amount, 0 ≤ amount → 0 ≤ costs.commission amount
  grows : ∀ amount larger, 0 ≤ amount → amount ≤ larger →
    costs.commission amount ≤ costs.commission larger
  proceeds : ∀ amount, 0 ≤ amount → costs.commission amount + costs.sellTax amount ≤ amount

/-! ### What a simulated purchase can cost -/

/-- A purchase takes at most what is left to buy, at no more than a price that
bounds the levels within its limit. -/
theorem take_levels_bounds (limit : Option Int) (ref : Int) (levels : List (Int × Int))
    (sizes : ∀ level ∈ levels, 0 ≤ level.2)
    (prices : ∀ level ∈ levels, (∀ bound, limit = some bound → level.1 ≤ bound) → level.1 ≤ ref)
    (remaining filled amount : Int) (left : 0 ≤ remaining) :
    (takeLevels .buy limit levels remaining filled amount).1 ≤ filled + remaining ∧
      (takeLevels .buy limit levels remaining filled amount).2 - amount ≤
        ((takeLevels .buy limit levels remaining filled amount).1 - filled) * ref := by
  induction levels generalizing remaining filled amount with
  | nil => simp [takeLevels, left]
  | cons level rest ih =>
    obtain ⟨price, size⟩ := level
    rw [takeLevels]
    split
    · simp [left]
    · rename_i within
      have size_nonneg : 0 ≤ size := sizes (price, size) List.mem_cons_self
      have bounded : price ≤ ref := by
        apply prices (price, size) List.mem_cons_self
        intro bound same
        simpa [beyondLimit, same] using within
      have low : 0 ≤ min remaining size := le_min left size_nonneg
      have cost : min remaining size * price ≤ min remaining size * ref :=
        Int.mul_le_mul_of_nonneg_left bounded low
      simp only
      split
      · refine ⟨by omega, ?_⟩
        have same : filled + min remaining size - filled = min remaining size := by omega
        rw [same]
        omega
      · obtain ⟨quantity, paid⟩ := ih (fun other member => sizes other (List.mem_cons_of_mem _ member))
          (fun other member => prices other (List.mem_cons_of_mem _ member))
          (remaining - min remaining size) (filled + min remaining size)
          (amount + min remaining size * price) (by omega)
        refine ⟨by omega, ?_⟩
        -- What is taken from here on and what was taken here add up.
        generalize takeLevels .buy limit rest _ _ _ = result at paid ⊢
        have parts : (result.1 - filled) * ref =
            (result.1 - (filled + min remaining size)) * ref + min remaining size * ref := by
          rw [← Int.add_mul]
          congr 1
          omega
        omega

theorem simulated_purchase
    (buying : intent.side = .buy) (positive : 1 ≤ intent.qty) (fair : FairQuote quote)
    (priced : referencePrice intent quote = .ok ref) :
    (simulatePaperFills intent quote).1 ≤ intent.qty ∧
      (simulatePaperFills intent quote).2 ≤ (simulatePaperFills intent quote).1 * ref := by
  have bounds := take_levels_bounds
    (if intent.orderType = .limit then intent.limitPrice else none) ref quote.asks
    (fun level member => (fair level member).1) ?_ intent.qty 0 0 (by omega)
  · simp only [simulatePaperFills, buying, if_pos]
    simpa using bounds
  · intro level member below
    unfold referencePrice at priced
    split at priced
    · cases priced
    · rename_i limited offered
      cases priced
      exact below _ (by rw [if_pos limited, offered])
    · rw [if_pos buying] at priced
      cases priced
      exact (fair level member).2

/-! ### Fills still to be debited -/

/-- The cost of an entry's simulated fill; a sale costs nothing, and a fill
with a negative amount is never applied. -/
def PaperEntry.due (costs : CostModel) (entry : PaperEntry) : Int :=
  if entry.intent.side = .buy ∧ 0 < entry.filledQty ∧ 0 ≤ entry.filledAmountKrw then
    entry.filledAmountKrw + costs.commission entry.filledAmountKrw
  else 0

/-- What an order's entry will still cost: nothing once the order has its figures. -/
def dueFor (book : Dict String PaperEntry) (costs : CostModel) (order : Order) : Int :=
  match order.brokerOrderNo.bind book.get? with
  | none => 0
  | some entry => if order.filledQty = entry.filledQty then 0 else entry.due costs

/-- The cost of all simulated purchases the ledger has not seen yet. -/
def PaperSession.outstanding (s : PaperSession) : Int :=
  s.manager.orders.total (dueFor s.gateway.book s.manager.costs)

variable {costs : CostModel}

theorem due_nonneg (fair : FairCosts costs) (entry : PaperEntry) :
    0 ≤ entry.due costs := by
  unfold PaperEntry.due
  split
  · rename_i applies
    have charged := fair.charged _ applies.2.2
    omega
  · exact le_refl 0

theorem due_for_nonneg (fair : FairCosts costs) (book : Dict String PaperEntry)
    (order : Order) : 0 ≤ dueFor book costs order := by
  unfold dueFor
  split
  · exact le_refl 0
  · split
    · exact le_refl 0
    · exact due_nonneg fair _

theorem due_for_unbound
    (unbound : order.brokerOrderNo = none) : dueFor book costs order = 0 := by
  simp [dueFor, unbound]

theorem due_for_bound (bound : order.brokerOrderNo = some number)
    (held : book.get? number = some entry) :
    dueFor book costs order = if order.filledQty = entry.filledQty then 0 else entry.due costs := by
  simp [dueFor, bound, held]

/-- A purchase that passed the gate is due for no more than the gate counted. -/
theorem simulated_due
    (fair : FairCosts costs) (fair_quote : FairQuote quote) (positive : 1 ≤ intent.qty)
    (priced : referencePrice intent quote = .ok ref) :
    PaperEntry.due costs {
        intent, filledQty := (simulatePaperFills intent quote).1
        filledAmountKrw := (simulatePaperFills intent quote).2, reservePrice := ref } = 0 ∨
      intent.side = .buy ∧ PaperEntry.due costs {
        intent, filledQty := (simulatePaperFills intent quote).1
        filledAmountKrw := (simulatePaperFills intent quote).2, reservePrice := ref } ≤
          intent.qty * ref + costs.commission (intent.qty * ref) := by
  unfold PaperEntry.due
  split
  · rename_i applies
    obtain ⟨buying, some_filled, amount⟩ := applies
    obtain ⟨quantity, cost⟩ := simulated_purchase buying positive fair_quote priced
    generalize simulatePaperFills intent quote = fill at *
    -- A bound on a non-negative amount is not negative itself.
    have ref_nonneg : 0 ≤ ref := by
      by_contra negative
      have below : fill.1 * ref < 0 := Int.mul_neg_of_pos_of_neg some_filled (by omega)
      simp only at amount
      omega
    have whole : fill.1 * ref ≤ intent.qty * ref :=
      Int.mul_le_mul_of_nonneg_right quantity ref_nonneg
    have fee := fair.grows fill.2 (intent.qty * ref) amount (by omega)
    exact .inr ⟨buying, by simp only; omega⟩
  · exact .inl rfl

/-! ### Cash covers what is still to be debited -/

/-- An order has none of its entry's fill or all of it. -/
def Taken (entry : PaperEntry) (order : Order) : Prop :=
  order.filledQty = 0 ∧ order.filledAmountKrw = 0 ∨
    order.filledQty = entry.filledQty ∧ order.filledAmountKrw = entry.filledAmountKrw

/-- The manager's books agree with the gateway's, and the cash covers every
fill the ledger has not seen. -/
structure Solvent (book : Dict String PaperEntry) (m : OrderManager) : Prop where
  priced : m.ledger.costs = m.costs
  known : ∀ id order, m.orders.get? id = some order → order.status ≠ .unknown
  bound : ∀ id order number, m.orders.get? id = some order → order.brokerOrderNo = some number →
    ∃ entry, book.get? number = some entry ∧ entry.intent = order.intent ∧ Taken entry order
  covered : m.orders.total (dueFor book m.costs) ≤ m.ledger.cashKrw

/-- Rows that report a book's entries. -/
def Reports (book : Dict String PaperEntry) (rows : List BrokerOrderStatus) : Prop :=
  ∀ row ∈ rows, ∃ entry, book.get? row.brokerOrderNo = some entry ∧
    row.filledQty = entry.filledQty ∧ row.filledAmountKrw = entry.filledAmountKrw

private theorem Solvent.rewrite {id : String} {journal : List Record} (solvent : Solvent book m)
    (found : m.orders.get? id = some order) (priced : paid.costs = m.ledger.costs)
    (known : next.status ≠ .unknown) (bound : ∀ number, next.brokerOrderNo = some number →
      ∃ entry, book.get? number = some entry ∧ entry.intent = next.intent ∧ Taken entry next)
    (debit : m.ledger.cashKrw + dueFor book m.costs next ≤
      paid.cashKrw + dueFor book m.costs order) :
    Solvent book { m with orders := m.orders.set id next, ledger := paid, journal } := by
  refine ⟨priced.trans solvent.priced, ?_, ?_, ?_⟩
  · exact Dict.forall_set known solvent.known
  · intro probe other number held own
    exact Dict.forall_set bound (fun probe other held number => solvent.bound probe other number held)
      probe other held number own
  · have covered := solvent.covered
    simp only [Dict.total_set_present _ found]
    omega

private theorem fill_debited {ledger paid : Ledger} {entry : PaperEntry}
    (fair : FairCosts ledger.costs) (some_filled : 0 < entry.filledQty)
    (applied : ledger.applyFill symbol entry.intent.side qty entry.filledAmountKrw =
      .ok (paid, pnl)) : ledger.cashKrw ≤ paid.cashKrw + entry.due ledger.costs := by
  obtain ⟨-, amount, -, cash, -⟩ := Ledger.apply_fill_ok applied
  rw [cash]
  cases side : entry.intent.side with
  | buy =>
    simp only [Ledger.cashDelta, PaperEntry.due, side, some_filled, amount, and_self, if_true]
    omega
  | sell =>
    have proceeds := fair.proceeds entry.filledAmountKrw amount
    simp only [Ledger.cashDelta, PaperEntry.due, side, reduceCtorEq, false_and, if_false]
    omega

/-- No operation but a submission can leave the cash short. -/
theorem action_solvent
    (action : Action start op m after) (elsewhere : ∀ intent env, op ≠ .submit intent env)
    (reports : Reports book op.rows) (fair : FairCosts m.costs) (solvent : Solvent book m) :
    Solvent book after := by
  cases action with
  | clerical => exact ⟨solvent.priced, solvent.known, solvent.bound, solvent.covered⟩
  | note => exact ⟨solvent.priced, solvent.known, solvent.bound, solvent.covered⟩
  | reject intent env code detail asked => exact absurd asked (elsewhere intent env)
  | register intent env quote ref asked => exact absurd asked (elsewhere intent env)
  | settle intent env quote order settled outcome at_ asked => exact absurd asked (elsewhere intent env)
  | adopt id order known row clock source found since covers unknown =>
    exact absurd unknown (solvent.known id order found)
  | retire id reason order at_ found unknown => exact absurd unknown (solvent.known id order found)
  | restate id order row status records clock found live listed level read =>
    refine solvent.rewrite found rfl (derive_status_known read).2 ?_ (le_refl _)
    exact fun number own => solvent.bound id order number found own
  | take id before order row paid fills clock source adopts found live listed low high took =>
    obtain ⟨own, member⟩ := row_of_some listed
    obtain ⟨entry, held, quantity, amount⟩ := reports row member
    obtain ⟨other, again, intent, taken⟩ := solvent.bound id order _ found own
    rw [held] at again
    cases again
    have rebound : ∀ number, order.brokerOrderNo = some number →
        ∃ entry, book.get? number = some entry ∧ entry.intent = order.intent ∧ Taken entry {
          order with filledQty := row.filledQty, filledAmountKrw := row.filledAmountKrw } := by
      intro number same
      rw [own] at same
      cases same
      exact ⟨entry, held, intent, .inr ⟨quantity, amount⟩⟩
    have settled : dueFor book m.costs { order with
        filledQty := row.filledQty, filledAmountKrw := row.filledAmountKrw } = 0 := by
      simp [dueFor, own, held, quantity]
    cases took with
    | same equal =>
      refine solvent.rewrite found rfl (solvent.known id order found) rebound ?_
      rw [settled, due_for_bound own held, if_pos (equal.symm.trans quantity)]
    | more larger _ pnl applied =>
      -- An order short of its entry has none of its fill yet.
      obtain ⟨nothing, unpaid⟩ := taken.resolve_right fun whole => by omega
      have due : dueFor book m.costs order = entry.due m.costs := by
        rw [due_for_bound own held, if_neg (by omega)]
      rw [nothing, unpaid, Int.sub_zero, Int.sub_zero, amount, ← intent] at applied
      refine solvent.rewrite found (Ledger.apply_fill_costs applied) (solvent.known id order found)
        rebound ?_
      rw [settled, due, ← solvent.priced]
      have paid_for := fill_debited (solvent.priced ▸ fair) (by omega) applied
      omega

/-- A later book has every entry, and no entry's figures have changed. -/
def Extends (book later : Dict String PaperEntry) : Prop :=
  ∀ number entry, book.get? number = some entry → ∃ kept, later.get? number = some kept ∧
    kept.intent = entry.intent ∧ kept.filledQty = entry.filledQty ∧
    kept.filledAmountKrw = entry.filledAmountKrw

/-- What is outstanding does not depend on entries no order is bound to. -/
theorem Solvent.outstanding_extend (solvent : Solvent book m) (extended : Extends book later) :
    m.orders.total (dueFor later m.costs) = m.orders.total (dueFor book m.costs) := by
  apply Dict.total_congr
  intro id order found
  cases own : order.brokerOrderNo with
  | none => rw [due_for_unbound own, due_for_unbound own]
  | some number =>
    obtain ⟨entry, held, -, -⟩ := solvent.bound id order number found own
    obtain ⟨kept, present, intent, quantity, amount⟩ := extended number entry held
    rw [due_for_bound own held, due_for_bound own present, PaperEntry.due, PaperEntry.due,
      intent, quantity, amount]

theorem Solvent.extend
    (solvent : Solvent book m) (extended : Extends book later) : Solvent later m := by
  refine ⟨solvent.priced, solvent.known, ?_, ?_⟩
  · intro id order number found own
    obtain ⟨entry, held, intent, taken⟩ := solvent.bound id order number found own
    obtain ⟨kept, present, same, quantity, amount⟩ := extended number entry held
    exact ⟨kept, present, same.trans intent, by rwa [Taken, quantity, amount]⟩
  · rw [solvent.outstanding_extend extended]
    exact solvent.covered

private theorem Solvent.added {id : String}
    (solvent : Solvent book m) (fresh : m.orders.get? id = none) (known : order.status ≠ .unknown)
    (bound : ∀ number, order.brokerOrderNo = some number →
      ∃ entry, book.get? number = some entry ∧ entry.intent = order.intent ∧ Taken entry order)
    (affordable : m.orders.total (dueFor book m.costs) + dueFor book m.costs order ≤
      m.ledger.cashKrw) (seq : Nat) (times : List Timestamp) (journal : List Record) :
    Solvent book { m with
      orders := m.orders.set id order, seq, submitTimes := times, journal } := by
  refine ⟨solvent.priced, ?_, ?_, ?_⟩
  · exact Dict.forall_set known solvent.known
  · intro probe other number held own
    exact Dict.forall_set bound (fun probe other held number => solvent.bound probe other number held)
      probe other held number own
  · simp only [Dict.total_set_new _ fresh]
    exact affordable

/-! ### The gateway's own steps -/

/-- Every entry was numbered by the gateway's counter. -/
def Numbered (g : PaperGateway) : Prop :=
  ∀ number entry, g.book.get? number = some entry → ∃ seq ≤ g.seq, number = paperNumber seq

theorem paper_number_fresh (numbered : Numbered g) :
    g.book.get? (paperNumber (g.seq + 1)) = none := by
  cases found : g.book.get? (paperNumber (g.seq + 1)) with
  | none => rfl
  | some entry =>
    obtain ⟨seq, bound, same⟩ := numbered _ entry found
    have equal := paper_number_injective same
    omega

theorem submit_book (order : Order) (at_ : Timestamp)
    (numbered : Numbered g) (priced : referencePrice order.intent quote = .ok ref) :
    Numbered (g.submit order quote at_).1 ∧ Extends g.book (g.submit order quote at_).1.book ∧
      (g.submit order quote at_).1.book.get? (paperNumber (g.seq + 1)) = some {
        intent := order.intent, filledQty := (simulatePaperFills order.intent quote).1
        filledAmountKrw := (simulatePaperFills order.intent quote).2, reservePrice := ref } := by
  simp only [PaperGateway.submit, priced]
  refine ⟨?_, ?_, Dict.get?_set_self _ _ _⟩
  · refine Dict.forall_set ⟨g.seq + 1, Nat.le_refl _, rfl⟩ ?_
    intro number entry held
    obtain ⟨seq, bound, same⟩ := numbered number entry held
    exact ⟨seq, Nat.le_succ_of_le bound, same⟩
  · intro number entry held
    have different : number ≠ paperNumber (g.seq + 1) := by
      rintro rfl
      rw [paper_number_fresh numbered] at held
      cases held
    exact ⟨entry, by rwa [Dict.get?_set_of_ne different], rfl, rfl, rfl⟩

theorem cancel_book (order : Order) (at_ : Timestamp) (numbered : Numbered g) :
    Numbered (g.cancel order at_).1 ∧ Extends g.book (g.cancel order at_).1.book := by
  have same : Numbered g ∧ Extends g.book g.book :=
    ⟨numbered, fun _ entry held => ⟨entry, held, rfl, rfl, rfl⟩⟩
  unfold PaperGateway.cancel
  simp only
  cases found : g.book.get? (order.brokerOrderNo.getD "") with
  | none => exact same
  | some entry =>
    -- Marking an entry changes neither its number nor its figures.
    have marked : Numbered { g with
          book := g.book.set (order.brokerOrderNo.getD "") { entry with cancelled := true } } ∧
        Extends g.book (g.book.set (order.brokerOrderNo.getD "") { entry with cancelled := true }) := by
      refine ⟨fun number other held => ?_, fun number other held => ?_⟩
      · simp only [Dict.get?_set] at held
        split at held
        · rename_i same
          exact numbered number entry (same ▸ found)
        · exact numbered number other held
      · by_cases same : number = order.brokerOrderNo.getD ""
        · subst same
          rw [found] at held
          cases held
          exact ⟨_, Dict.get?_set_self _ _ _, rfl, rfl, rfl⟩
        · exact ⟨other, by rwa [Dict.get?_set_of_ne same], rfl, rfl, rfl⟩
    simp only
    split
    · exact same
    · split
      · exact marked
      · exact marked

theorem fetch_reports (g : PaperGateway) : Reports g.book g.fetchStatuses :=
  List.forall_mem_map.mpr fun item inside => ⟨item.2, Dict.mem_entries_iff.mp inside, rfl, rfl⟩

/-! ### Whole sessions -/

/-- What a session is held to: fair quotes, and purchases only while the cash
held back makes up for the fills still to be debited. -/
def PaperMeets (s : PaperSession) : PaperOp → Prop
  | .submit intent quote _ _ _ => ∀ offered, quote = .ok offered →
      FairQuote offered ∧ (intent.side = .buy → s.outstanding ≤ s.gateway.reserved)
  | _ => True

structure PaperSound (s : PaperSession) : Prop where
  fair : FairCosts s.manager.costs
  filed : Filed s.manager
  numbered : Numbered s.gateway
  solvent : Solvent s.gateway.book s.manager

private theorem submit_accepted (m : OrderManager) (clientId : String) (intent : OrderIntent)
    (quote : Quote) (ref : Int) (env : SubmitEnv) (number : String)
    (replied : (env.gateway (pendingOrder clientId intent env) quote).reply = .ok {
      kind := .accepted, brokerOrderNo := some number, brokerOrgNo := some "PAPER",
      orderTime := some "" }) :
    ∃ times journal, (m.send clientId intent quote ref env).1 = { m with
      orders := m.orders.set clientId { pendingOrder clientId intent env with
        status := .accepted, brokerOrderNo := some number, brokerOrgNo := some "PAPER",
        brokerOrderTime := some "" }
      submitTimes := times, journal } := by
  have settled : settleOrder (pendingOrder clientId intent env) {
      kind := .accepted, brokerOrderNo := some number, brokerOrgNo := some "PAPER",
      orderTime := some "" } = .ok { pendingOrder clientId intent env with
        status := .accepted, brokerOrderNo := some number, brokerOrgNo := some "PAPER",
        brokerOrderTime := some "" } := rfl
  simp only [send, replied, settle, settled, register]
  rw [show (pendingOrder clientId intent env).clientId = clientId from rfl, Dict.set_set]
  exact ⟨_, _, rfl⟩

private theorem submit_solvent {intent : OrderIntent} {quote : Except Error Quote}
    (sound : PaperSound s) (meets : PaperMeets s (.submit intent quote killSwitch clock sentAt)) :
    Numbered (s.gatewayAfter (.submit intent quote killSwitch clock sentAt)) ∧
      Solvent (s.gatewayAfter (.submit intent quote killSwitch clock sentAt)).book
        (s.manager.submit intent (s.submitEnv quote killSwitch clock sentAt)).1 := by
  obtain ⟨fair, filed, numbered, solvent⟩ := sound
  have fresh := next_id_fresh filed (s.submitEnv quote killSwitch clock sentAt)
  have outcome := submit_step s.manager intent (s.submitEnv quote killSwitch clock sentAt)
  simp only [PaperSession.gatewayAfter]
  generalize PaperSession.submitted s.manager intent _ = handed at outcome
  generalize (s.manager.submit intent _).1 = after at outcome
  cases outcome with
  | refused => exact ⟨numbered, solvent⟩
  | counted => exact ⟨numbered, solvent.priced, solvent.known, solvent.bound, solvent.covered⟩
  | rejected code detail =>
    refine ⟨numbered, solvent.added fresh (by simp) (by simp) ?_ _ _ _⟩
    rw [due_for_unbound rfl, Int.add_zero]
    exact solvent.covered
  | sent offered ref quoted passed =>
    obtain ⟨fair_quote, makes_up⟩ := meets offered quoted
    obtain ⟨priced, orderable, cash, passed⟩ := risk_gate_ok passed
    let order := pendingOrder (s.manager.nextId (s.submitEnv quote killSwitch clock sentAt)) intent
      (s.submitEnv quote killSwitch clock sentAt)
    obtain ⟨later_numbered, extended, entry⟩ := submit_book order sentAt numbered priced
    obtain ⟨times, journal, sent⟩ := submit_accepted { s.manager with seq := s.manager.seq + 1 }
      (s.manager.nextId (s.submitEnv quote killSwitch clock sentAt)) intent offered ref
      (s.submitEnv quote killSwitch clock sentAt) (paperNumber (s.gateway.seq + 1))
      (by simp [PaperSession.submitEnv, PaperGateway.submit, pendingOrder, priced])
    refine ⟨later_numbered, ?_⟩
    rw [sent]
    refine (solvent.extend extended).added fresh (by simp) (fun number own => ?_) ?_ _ _ _
    · cases own
      exact ⟨_, entry, rfl, .inl ⟨rfl, rfl⟩⟩
    · rw [solvent.outstanding_extend extended, due_for_bound rfl entry]
      have covered := solvent.covered
      rcases simulated_due fair fair_quote passed.positive priced with nothing | ⟨buying, at_most⟩
      · split
        · omega
        · rw [show order.intent = intent from rfl, nothing]
          omega
      · -- The gate has compared the whole purchase with cash less what is held back.
        have checked := passed.cash buying ref priced
        have held_back := makes_up buying
        cases cash buying
        simp only [riskContext, PaperGateway.orderableCash] at checked
        simp only [PaperSession.outstanding] at held_back
        rw [show order.intent = intent from rfl]
        split <;> omega

/-- Every operation of a session that is so held keeps the cash covered. -/
theorem paper_step_sound (meets : PaperMeets s op)
    (sound : PaperSound s) : PaperSound (s.step op) := by
  have chain := step_actions s.manager (s.answered op)
  have config := actions_preserve (fun now => Filed now ∧ now.costs = s.manager.costs)
    (fun _ _ action so_far => ⟨action_filed action so_far.1, (action_config action).2.trans so_far.2⟩)
    chain ⟨sound.filed, rfl⟩
  have fair : FairCosts (s.step op).manager.costs := by
    rw [PaperSession.step, config.2]
    exact sound.fair
  -- Away from a submission the manager's actions meet the book as it is.
  have elsewhere : ∀ rows, (s.answered op).rows = rows → Reports s.gateway.book rows →
      (∀ intent env, s.answered op ≠ .submit intent env) →
      Solvent s.gateway.book (s.step op).manager := by
    intro rows listed reports other
    exact (actions_preserve (fun now => now.costs = s.manager.costs ∧ Solvent s.gateway.book now)
      (fun _ _ action so_far => ⟨(action_config action).2.trans so_far.1,
        action_solvent action other (listed ▸ reports) (so_far.1 ▸ sound.fair) so_far.2⟩)
      chain ⟨rfl, sound.solvent⟩).2
  have nothing : Reports s.gateway.book [] := fun row member => by cases member
  cases op with
  | submit intent quote killSwitch clock sentAt =>
    obtain ⟨numbered, solvent⟩ := submit_solvent sound meets
    exact ⟨fair, config.1, numbered, solvent⟩
  | cancel clientId sentAt recordedAt =>
    have solvent := elsewhere [] rfl nothing (by simp [PaperSession.answered])
    have kept : Numbered (s.gatewayAfter (.cancel clientId sentAt recordedAt)) ∧
        Extends s.gateway.book (s.gatewayAfter (.cancel clientId sentAt recordedAt)).book := by
      simp only [PaperSession.gatewayAfter]
      split
      · exact ⟨sound.numbered, fun _ entry held => ⟨entry, held, rfl, rfl, rfl⟩⟩
      · exact cancel_book _ sentAt sound.numbered
    exact ⟨fair, config.1, kept.1, solvent.extend kept.2⟩
  | reconcile clock =>
    exact ⟨fair, config.1, sound.numbered,
      elsewhere _ rfl (fetch_reports s.gateway) (by simp [PaperSession.answered])⟩
  | resolveUnknown clientId reason clock recordedAt =>
    exact ⟨fair, config.1, sound.numbered,
      elsewhere _ rfl (fetch_reports s.gateway) (by simp [PaperSession.answered])⟩
  | blockSubmits reason =>
    exact ⟨fair, config.1, sound.numbered, elsewhere [] rfl nothing (by simp [PaperSession.answered])⟩
  | close =>
    exact ⟨fair, config.1, sound.numbered, elsewhere [] rfl nothing (by simp [PaperSession.answered])⟩

/-- A paper session as it is built: no orders, an empty book, one ledger. -/
structure PaperOpening (s : PaperSession) : Prop where
  mode : s.manager.mode = .paper
  empty : s.manager.orders = ∅
  gateway : s.gateway = {}
  priced : s.manager.ledger.costs = s.manager.costs
  funded : 0 ≤ s.manager.ledger.cashKrw

/-- Paper buying power is not overspent as long as every purchase is submitted
while the cash held back makes up for the simulated fills still to be debited. -/
theorem paper_cash_stays_nonnegative (s : PaperSession) (ops : List PaperOp)
    (fair : FairCosts s.manager.costs) (opening : PaperOpening s)
    (meets : Along PaperSession.step PaperMeets s ops) :
    0 ≤ (s.run ops).manager.ledger.cashKrw := by
  have start : PaperSound s := by
    refine ⟨fair, filed_of_empty opening.empty, ?_, opening.priced, ?_, ?_, ?_⟩
    · intro number entry held
      rw [opening.gateway] at held
      cases held
    · intro id order found
      rw [opening.empty] at found
      cases found
    · intro id order number found
      rw [opening.empty] at found
      cases found
    · rw [opening.empty, Dict.total_empty]
      exact opening.funded
  have sound : PaperSound (s.run ops) :=
    foldl_preserves PaperSound (fun _ _ met so_far => paper_step_sound met so_far) meets start
  have outstanding : 0 ≤ (s.run ops).manager.orders.total
      (dueFor (s.run ops).gateway.book (s.run ops).manager.costs) :=
    Dict.total_nonneg fun _ order _ => due_for_nonneg sound.fair _ order
  exact outstanding.trans sound.solvent.covered

open Sample

/-- A paper session with a thousand won. -/
def paper : PaperSession where
  manager := {
    mode := .paper, limits := limits, costs := free
    ledger := { cashKrw := 1000, costs := free } }
  gateway := {}

/-- A purchase quoted and submitted at nine sharp. -/
def paperSubmit (intent : OrderIntent) : PaperOp :=
  .submit intent (.ok quote) false ⟨nine, nine, nine, nine,
    nine, nine⟩ nine

/-- Two purchases with a reconciliation after each; the second is refused for
lack of cash. -/
theorem paper_cash_stays_nonnegative_reconciled :
    0 ≤ (paper.run [paperSubmit (order "005930" .buy 6),
      .reconcile fun _ => nine, paperSubmit (order "005930" .buy 6),
      .reconcile fun _ => nine]).manager.ledger.cashKrw := by
  refine paper_cash_stays_nonnegative _ _ ⟨?_, ?_, ?_⟩ ⟨rfl, rfl, rfl, rfl, by decide⟩
    ⟨?_, trivial, ?_, trivial, trivial⟩
  · exact fun _ _ => Int.le_refl 0
  · exact fun _ _ _ _ => Int.le_refl 0
  · exact fun _ nonneg => nonneg
  · intro offered same
    cases same
    exact ⟨by decide, fun _ => by decide⟩
  · intro offered same
    cases same
    exact ⟨by decide, fun _ => by decide⟩

/-- The same two purchases before any reconciliation: the first is filled at
once and so nothing is held back for it when the second is checked. -/
theorem unreconciled_fill_overspends :
    (paper.run [paperSubmit (order "005930" .buy 6),
      paperSubmit (order "005930" .buy 6),
      .reconcile fun _ => nine]).manager.ledger.cashKrw = -200 := by
  decide

end KrxAlpha
