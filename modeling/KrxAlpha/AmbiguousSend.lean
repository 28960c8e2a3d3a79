import KrxAlpha.Restarts

/-! Sends without a clear answer. An order that may have reached the broker
must keep the next order of its symbol and side away from the gateway until it
is finished or found in the broker's list. The gate asks for the UNKNOWN status
only, so the guarantee rests on every unclear send ending in that status. -/
namespace KrxAlpha
open OrderManager

/-- A submission gets as far as `gateway.submit`. -/
structure Sends (m : OrderManager) (intent : OrderIntent) (env : SubmitEnv) (quote : Quote) :
    Prop where
  running : m.closed = false
  quoted : env.quote = .ok quote
  passed : ∃ ref, m.riskGate intent quote env = .ok ref

/-- The gateway always answers a submission. -/
def Answers (op : Op) : Prop :=
  ∀ intent env, op = .submit intent env →
    ∀ order quote err, (env.gateway order quote).reply ≠ .error err

/-- Nothing is left open about where the order stands, or the gate sees it. -/
def Accounted (order : Order) : Prop :=
  order.status = .unknown ∨ order.status ∈ terminalStatuses ∨ order.brokerOrderNo ≠ none

/-- The intent of a send is on record and its order accounted for. -/
structure Awaits (intent : OrderIntent) (id : String) (m : OrderManager) : Prop where
  recorded : ∃ record ∈ m.journal, ∃ ref, record.event = .intent id intent ref
  order : ∃ order, m.orders.get? id = some order ∧ order.intent = intent ∧ Accounted order

private theorem accounted_step (step : OrderStep before after)
    (accounted : Accounted before) : Accounted after := by
  cases step with
  | same => exact accounted
  | settled pending unbound outcome after answered =>
    rcases accounted with unknown | terminal | bound
    · rw [pending] at unknown
      cases unknown
    · rw [pending] at terminal
      exact absurd terminal (by decide)
    · exact absurd unbound bound
  | adopted unknown row => exact .inr (.inr (by simp))
  | took live bound row low high => exact .inr (.inr bound)
  | restated live bound status known => exact .inr (.inr bound)
  | retired unknown unbound reason =>
    exact .inr (.inl (by decide : OrderStatus.rejected ∈ terminalStatuses))

variable {id : String}

theorem action_awaits
    (action : Action start op m after) (filed : Filed m) (awaits : Awaits intent id m) :
    Awaits intent id after := by
  obtain ⟨-, new, appended, -⟩ := action_appends action
  obtain ⟨record, member, written⟩ := awaits.recorded
  obtain ⟨order, found, same, accounted⟩ := awaits.order
  obtain ⟨later, held, step⟩ := action_order action filed found
  refine ⟨⟨record, by rw [appended]; exact List.mem_append_left _ member, written⟩, later, held, ?_,
    accounted_step step accounted⟩
  rw [(order_step_identity step).2.1, same]

theorem actions_await
    (chain : Actions start op m after) (filed : Filed m) (awaits : Awaits intent id m) :
    Awaits intent id after := by
  refine (actions_preserve (fun now => Filed now ∧ Awaits intent id now) ?_ chain
    ⟨filed, awaits⟩).2
  rintro now later action ⟨now_filed, so_far⟩
  exact ⟨action_filed action now_filed, action_awaits action now_filed so_far⟩

/-- A restart reads the recorded intent back, with the order accounted for. -/
theorem restored_awaits (restored : Restored terms mid next replayed)
    (awaits : Awaits intent id mid) : Awaits intent id next := by
  obtain ⟨record, member, ref, event⟩ := awaits.recorded
  obtain ⟨order, found, same, accounted⟩ := awaits.order
  obtain ⟨copy, held⟩ := (replay_keeps restored.read).2 _ member _ (by rw [event]; rfl) (by rw [event]; rfl)
  obtain ⟨present, twin⟩ := restored.order found held
  refine ⟨⟨record, by rwa [restored.journal], ref, event⟩, readPending copy, present,
    twin.intent.trans same, ?_⟩
  have status : (readPending copy).status = shownStatus order.status := twin.status
  rcases accounted with unknown | terminal | bound
  · exact .inl (by rw [status, unknown]; rfl)
  · exact .inr (.inl (by rw [status, shown_terminal terminal]; exact terminal))
  · obtain ⟨number, own⟩ := Option.ne_none_iff_exists'.mp bound
    have kept : (readPending copy).brokerOrderNo = some number := twin.bound number own
    exact .inr (.inr (by simp [kept]))

/-- A move of the day keeps a send accounted for. -/
theorem advance_awaits {Meets : OrderManager → Op → Prop}
    (meets : WithinDay day Meets m move)
    (moved : advance day m move = .ok next) (shadowed : Shadowed Terms.none m)
    (awaits : Awaits intent id m) : Awaits intent id next := by
  cases move with
  | op op =>
    cases moved
    exact actions_await (step_actions m op) shadowed.filed awaits
  | restart during appends limits holdings =>
    obtain ⟨mid, replayed, chain, -, restored⟩ :=
      restart_restored meets (meets_none m during) shadowed moved
    exact restored_awaits restored (actions_await chain shadowed.filed awaits)
  | announce at_ event _ =>
    cases moved
    obtain ⟨record, member, written⟩ := awaits.recorded
    exact ⟨⟨record, List.mem_append_left _ member, written⟩, awaits.order⟩

/-- A send answered UNKNOWN leaves its intent on record and its order UNKNOWN. -/
theorem unknown_send_awaits (sends : Sends m intent env quote)
    (replied : (env.gateway (pendingOrder (m.nextId env) intent env) quote).reply = .ok outcome)
    (unclear : outcome.kind = .unknown) :
    Awaits intent (m.nextId env) (m.step (.submit intent env)) := by
  obtain ⟨running, quoted, ref, passed⟩ := sends
  have settled : settleOrder (pendingOrder (m.nextId env) intent env) outcome =
      .ok { pendingOrder (m.nextId env) intent env with status := .unknown } := by
    simp only [settleOrder, unclear]
    rfl
  simp only [step, submit, running, Bool.false_eq_true, ↓reduceIte, quoted, passed, send, replied,
    settle, settled]
  refine ⟨⟨⟨env.clock.journaledAt, m.mode, .intent (m.nextId env) intent ref⟩, ?_, ref, rfl⟩,
    _, Dict.get?_set_self _ _ _, rfl, .inl rfl⟩
  simp [OrderManager.record, register]

/-- The gate sees an UNKNOWN order of the same symbol and side. -/
theorem unknown_order_blocks (found : m.orders.get? id = some order)
    (unknown : order.status = .unknown) (symbol : intent.symbol = order.intent.symbol)
    (side : intent.side = order.intent.side) : ¬ Sends m intent env quote := by
  rintro ⟨-, -, ref, passed⟩
  obtain ⟨-, orderable, -, checked⟩ := risk_gate_ok passed
  have clear := checked.noUnknown
  simp only [riskContext, List.any_eq_false, openOrders, List.mem_filter] at clear
  have waiting : decide (order.status ∈ openStatuses) = true := by rw [unknown]; decide
  exact clear order ⟨Dict.mem_values_iff.mpr ⟨id, found⟩, waiting⟩
    (by simp [unknown, symbol, side])

/-- No duplicate exposure: in a day in which the gateway answers every
submission, a send that was neither accepted nor rejected keeps every later
submission of its symbol and side from the gateway until its order is finished
or bound to a broker number, through any operations and restarts. -/
theorem unclear_send_blocks_side (day : Int) (m mid last : OrderManager) (first second : List Move)
    (intent later : OrderIntent) (env env' : SubmitEnv) (quote quote' : Quote) (opened : Opened m)
    (answers : AlongMoves day (WithinDay day fun _ => Answers) m
      (first ++ .op (.submit intent env) :: second))
    (reached : travel day m first = .ok mid) (sends : Sends mid intent env quote)
    (unclear : ∀ outcome, (env.gateway (pendingOrder (mid.nextId env) intent env) quote).reply =
      .ok outcome → outcome.kind ≠ .accepted ∧ outcome.kind ≠ .rejected)
    (went : travel day (mid.step (.submit intent env)) second = .ok last)
    (again : Sends last later env' quote') (symbol : later.symbol = intent.symbol)
    (side : later.side = intent.side) :
    ∃ order, last.orders.get? (mid.nextId env) = some order ∧
      (order.status ∈ terminalStatuses ∨ order.brokerOrderNo ≠ none) := by
  obtain ⟨before, here, after⟩ := along_moves_append answers reached
  have shadowed := (travel_shadowed (fun _ => True) (fun _ _ _ _ _ _ _ => trivial) before reached
    (opened_shadowed _ opened) trivial).1
  have sent : Awaits intent (mid.nextId env) (mid.step (.submit intent env)) := by
    cases replied : (env.gateway (pendingOrder (mid.nextId env) intent env) quote).reply with
    | error err => exact absurd replied (here intent env rfl _ _ _)
    | ok outcome =>
      obtain ⟨notAccepted, notRejected⟩ := unclear outcome replied
      apply unknown_send_awaits sends replied
      cases kind : outcome.kind with
      | accepted => exact absurd kind notAccepted
      | rejected => exact absurd kind notRejected
      | unknown => rfl
  have submitted : Shadowed Terms.none (mid.step (.submit intent env)) :=
    actions_shadowed (step_actions mid _) (meets_none mid _) shadowed
  have waiting := (travel_shadowed (Awaits intent (mid.nextId env))
    (fun _ _ _ allowed moved so_far kept => advance_awaits allowed moved so_far kept)
    (after _ rfl) went submitted sent).2
  obtain ⟨order, found, same, accounted⟩ := waiting.order
  refine ⟨order, found, accounted.resolve_left fun unknown => ?_⟩
  exact unknown_order_blocks found unknown (by rw [same, symbol]) (by rw [same, side]) again

/-- A purchase that was never answered is adopted from the broker's list before
the next one is sent. -/
theorem unclear_send_blocks_side_until_bound :
    ∃ order, (((Sample.opening []).step
        (.submit (Sample.order "005930" .buy 10) Sample.unanswered)).step
          (.reconcile (Sample.listing [Sample.row "1" "005930" .buy 10 0 0]))).orders.get?
            (Sample.id 1) = some order ∧
      (order.status ∈ terminalStatuses ∨ order.brokerOrderNo ≠ none) := by
  have answered : ∀ reply, Answers (.submit (Sample.order "005930" .buy 10)
      (Sample.answering (.ok reply))) := by
    rintro reply intent env same order quote err raised
    cases same
    cases raised
  refine unclear_send_blocks_side 20707 (Sample.opening []) (Sample.opening []) _ []
    [.op (.reconcile (Sample.listing [Sample.row "1" "005930" .buy 10 0 0]))]
    (Sample.order "005930" .buy 10) (Sample.order "005930" .buy 10) Sample.unanswered
    (Sample.accepted "2") Sample.quote Sample.quote ⟨rfl, by decide⟩ ?_ rfl
    ⟨rfl, rfl, 100, rfl⟩ ?_ rfl ⟨rfl, rfl, 100, rfl⟩ rfl rfl
  · refine ⟨answered _, fun _ _ => ⟨?_, fun _ _ => trivial⟩⟩
    rintro intent env same
    cases same
  · intro outcome replied
    cases replied
    exact ⟨by decide, by decide⟩

/-- A gateway that raises leaves the order pending, which the gate does not
look for: the next purchase of the same symbol is sent as well. -/
theorem raised_send_blocks_nothing :
    Sends (Sample.opening []) (Sample.order "005930" .buy 10)
        (Sample.answering (.error (.foreign "ConnectionError"))) Sample.quote ∧
      Sends ((Sample.opening []).step (.submit (Sample.order "005930" .buy 10)
        (Sample.answering (.error (.foreign "ConnectionError")))))
        (Sample.order "005930" .buy 10) (Sample.accepted "2") Sample.quote ∧
      ∃ order, ((Sample.opening []).step (.submit (Sample.order "005930" .buy 10)
          (Sample.answering (.error (.foreign "ConnectionError"))))).orders.get? (Sample.id 1) =
            some order ∧
        order.status = .pendingSubmit ∧ order.brokerOrderNo = none :=
  ⟨⟨rfl, rfl, 100, rfl⟩, ⟨rfl, rfl, 100, rfl⟩, _, rfl, by decide, by decide⟩

end KrxAlpha
