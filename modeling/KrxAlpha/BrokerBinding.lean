import KrxAlpha.Restarts

/-! Broker order numbers. A number is bound by an accepted submission or by
adoption; the adoption loop looks at an order's status only, so an order that
stayed UNKNOWN after it was bound is offered for adoption again. -/
namespace KrxAlpha
open OrderManager

def BoundTo (orders : Dict String Order) (id number : String) : Prop :=
  ∃ order, orders.get? id = some order ∧ order.brokerOrderNo = some number

/-- No UNKNOWN order that already has a number could take over another row. -/
def NoRematch (m : OrderManager) (op : Op) : Prop :=
  ∀ id order, m.orders.get? id = some order → order.status = .unknown →
    order.brokerOrderNo ≠ none → candidates op.rows (knownNumbers m.orders) order = []

theorem no_rematch_iff (m : OrderManager) (op : Op) :
    NoRematch m op ↔ ∀ order ∈ m.orders.values, order.status = .unknown →
      order.brokerOrderNo ≠ none → candidates op.rows (knownNumbers m.orders) order = [] := by
  constructor
  · intro clear order member
    obtain ⟨id, found⟩ := Dict.mem_values_iff.mp member
    exact clear id order found
  · intro clear id order found
    exact clear order (Dict.mem_values_iff.mpr ⟨id, found⟩)

instance (m : OrderManager) (op : Op) : Decidable (NoRematch m op) :=
  decidable_of_iff' _ (no_rematch_iff m op)

private theorem bound_set {orders : Dict String Order} {id number key : String}
    (bound : BoundTo orders id number)
    (keep : ∀ order, id = key → orders.get? id = some order → order.brokerOrderNo = some number →
      next.brokerOrderNo = some number) : BoundTo (orders.set key next) id number := by
  obtain ⟨order, found, own⟩ := bound
  by_cases same : id = key
  · exact ⟨next, by rw [same, Dict.get?_set_self], keep order same found own⟩
  · exact ⟨order, by rwa [Dict.get?_set_of_ne same], own⟩

variable {id number : String}

theorem action_bound {start m after : OrderManager}
    (action : Action start op m after) (clear : NoRematch start op) (filed : Filed m)
    (bound : BoundTo m.orders id number) : BoundTo after.orders id number := by
  cases action with
  | clerical => exact bound
  | note => exact bound
  | reject intent env code detail asked =>
    apply bound_set bound
    intro order same found _
    rw [same, next_id_fresh filed env] at found
    cases found
  | register intent env quote ref asked quoted passed =>
    apply bound_set bound
    intro order same found _
    rw [same, next_id_fresh filed env] at found
    cases found
  | settle intent env quote order settled outcome at_ asked replied held pending unbound answered =>
    apply bound_set bound
    intro other same found own
    rw [same, held] at found
    cases found
    rw [unbound.1] at own
    cases own
  | adopt key order known row clock source held since covers unknown single =>
    apply bound_set bound
    intro other same found own
    -- The order was UNKNOWN and bound when the operation began.
    rw [same, held] at found
    cases found
    have nothing := clear key order source unknown (by simp [own])
    have listed : row ∈ candidates op.rows known order := by simp [single]
    have earlier := candidates_mono since listed
    rw [nothing] at earlier
    cases earlier
  | take key before order row paid fills clock source adopts held =>
    apply bound_set bound
    intro other same found own
    rw [same, held] at found
    cases found
    exact own
  | restate key order row status records clock held =>
    apply bound_set bound
    intro other same found own
    rw [same, held] at found
    cases found
    exact own
  | retire key reason order at_ held unknown unbound =>
    apply bound_set bound
    intro other same found own
    rw [same, held] at found
    cases found
    exact own

theorem actions_bound
    (chain : Actions start op m after) (clear : NoRematch start op) (filed : Filed m)
    (bound : BoundTo m.orders id number) : BoundTo after.orders id number := by
  refine (actions_preserve (fun now => Filed now ∧ BoundTo now.orders id number) ?_ chain
    ⟨filed, bound⟩).2
  rintro now later action ⟨now_filed, so_far⟩
  exact ⟨action_filed action now_filed, action_bound action clear now_filed so_far⟩

/-- A move of the day keeps a bound number. -/
theorem advance_bound
    (meets : WithinDay day NoRematch m move) (moved : advance day m move = .ok next)
    (shadowed : Shadowed Terms.none m) (bound : BoundTo m.orders id number) :
    BoundTo next.orders id number := by
  cases move with
  | op op =>
    cases moved
    exact actions_bound (step_actions m op) meets shadowed.filed bound
  | restart during appends limits holdings =>
    obtain ⟨mid, replayed, chain, -, restored⟩ :=
      restart_restored meets (meets_none m during) shadowed moved
    obtain ⟨order, found, own⟩ := actions_bound chain meets.1 shadowed.filed bound
    -- A refused intent has no number, so a bound order is on record.
    cases held : replayed.get? id with
    | none =>
      rw [(restored.mirror.unsent found held).2.1] at own
      cases own
    | some copy =>
      obtain ⟨present, twin⟩ := restored.order found held
      exact ⟨readPending copy, present, twin.bound number own⟩
  | announce at_ event _ =>
    cases moved
    exact bound

/-- Once bound, a number stays: over any operations and restarts of a day in
which no reconciliation lists an unbound row that an UNKNOWN order already
bound to another number matches. -/
theorem bound_number_never_changes (day : Int) (m mid last : OrderManager) (first second : List Move)
    (opened : Opened m) (meets : AlongMoves day (WithinDay day NoRematch) m (first ++ second))
    (reached : travel day m first = .ok mid) (went : travel day mid second = .ok last)
    (id number : String) (bound : BoundTo mid.orders id number) :
    BoundTo last.orders id number := by
  obtain ⟨before, after⟩ := along_moves_append meets reached
  have shadowed := (travel_shadowed (fun _ => True) (fun _ _ _ _ _ _ _ => trivial) before reached
    (opened_shadowed _ opened) trivial).1
  exact (travel_shadowed (fun now => BoundTo now.orders id number)
    (fun _ _ _ allowed moved so_far own => advance_bound allowed moved so_far own) after went
    shadowed bound).2

/-- An adopted number survives a reconciliation and a restart. -/
theorem bound_number_never_changes_restart :
    ∃ last, travel 20707 (Sample.opening []) [
        .op (.submit (Sample.order "005930" .buy 10) Sample.unanswered),
        .op (.reconcile (Sample.listing [Sample.row "1" "005930" .buy 10 0 0])),
        .op (.reconcile (Sample.listing [Sample.row "1" "005930" .buy 10 4 400,
          Sample.row "2" "005930" .buy 10 0 0])),
        .restart .close 0 Sample.limits []] = .ok last ∧
      BoundTo last.orders (Sample.id 1) "1" := by
  refine ⟨_, rfl, bound_number_never_changes 20707 (Sample.opening []) _ _ [
      .op (.submit (Sample.order "005930" .buy 10) Sample.unanswered),
      .op (.reconcile (Sample.listing [Sample.row "1" "005930" .buy 10 0 0]))] [
      .op (.reconcile (Sample.listing [Sample.row "1" "005930" .buy 10 4 400,
        Sample.row "2" "005930" .buy 10 0 0])),
      .restart .close 0 Sample.limits []] ⟨rfl, by decide⟩ ?_ rfl rfl _ _ ⟨_, rfl, by decide⟩⟩
  refine ⟨by decide, fun _ same => ?_⟩
  cases same
  refine ⟨by decide, fun _ same => ?_⟩
  cases same
  refine ⟨by decide, fun _ same => ?_⟩
  cases same
  exact ⟨⟨by decide, by decide, by decide⟩, fun _ _ => trivial⟩

/-- A row that reports eleven of ten shares filled is adopted and then refused,
which leaves the order UNKNOWN under number 1; the next listing rebinds it. -/
theorem refused_row_leaves_order_rebindable :
    BoundTo ((Sample.opening []).run [
        .submit (Sample.order "005930" .buy 10) Sample.unanswered,
        .reconcile (Sample.listing [Sample.row "1" "005930" .buy 10 11 1100])]).orders
      (Sample.id 1) "1" ∧
    BoundTo ((Sample.opening []).run [
        .submit (Sample.order "005930" .buy 10) Sample.unanswered,
        .reconcile (Sample.listing [Sample.row "1" "005930" .buy 10 11 1100]),
        .reconcile (Sample.listing [Sample.row "1" "005930" .buy 10 10 1000,
          Sample.row "2" "005930" .buy 10 0 0])]).orders (Sample.id 1) "2" :=
  ⟨⟨_, rfl, by decide⟩, ⟨_, rfl, by decide⟩⟩

end KrxAlpha
