import KrxAlpha.BrokerBinding
import KrxAlpha.SweepResume

/-! The two passes of a reconciliation, cut and begun again. The first pass
is independent of where it starts from as long as no broker row can be claimed
twice: an order then ends up with the row it would have chosen on the books as
they were at the start. The second pass takes over cumulative figures, so that
an order met again has nothing left to take. -/
namespace KrxAlpha
open OrderManager

/-- Both passes over given books. -/
def passes (rows : List BrokerOrderStatus) (orders : Dict String Order) (ledger : Ledger) :
    Swept Ledger (Dict String Order) Event Error :=
  (orders.sweep (adoptOrder rows) (knownNumbers orders)).items.sweep (applyOrder rows) ledger

/-! ### The first pass -/

/-- No row is a candidate of an order that already has a number, or of two
orders. -/
structure Unrivalled (rows : List BrokerOrderStatus) (orders : Dict String Order) : Prop where
  clear : ∀ id order, orders.get? id = some order → order.status = .unknown →
    order.brokerOrderNo ≠ none → candidates rows (knownNumbers orders) order = []
  apart : ∀ id other order rival row counterpart, orders.get? id = some order →
    orders.get? other = some rival → order.status = .unknown → rival.status = .unknown →
    row ∈ candidates rows (knownNumbers orders) order →
    counterpart ∈ candidates rows (knownNumbers orders) rival →
    row.brokerOrderNo = counterpart.brokerOrderNo → id = other

theorem unrivalled_iff (rows : List BrokerOrderStatus) (orders : Dict String Order) :
    Unrivalled rows orders ↔
      (∀ order ∈ orders.values, order.status = .unknown → order.brokerOrderNo ≠ none →
        candidates rows (knownNumbers orders) order = []) ∧
      ∀ entry ∈ orders.entries, ∀ rival ∈ orders.entries, entry.2.status = .unknown →
        rival.2.status = .unknown → ∀ row ∈ candidates rows (knownNumbers orders) entry.2,
        ∀ counterpart ∈ candidates rows (knownNumbers orders) rival.2,
        row.brokerOrderNo = counterpart.brokerOrderNo → entry.1 = rival.1 := by
  constructor
  · intro clean
    refine ⟨fun order member => ?_, fun entry member rival other unsettled rival_open row fits
      counterpart rival_fits => ?_⟩
    · obtain ⟨id, found⟩ := Dict.mem_values_iff.mp member
      exact clean.clear id order found
    · exact clean.apart _ _ _ _ row counterpart (Dict.mem_entries_iff.mp member)
        (Dict.mem_entries_iff.mp other) unsettled rival_open fits rival_fits
  · rintro ⟨clear, apart⟩
    refine ⟨fun id order found => clear order (Dict.mem_values_iff.mpr ⟨id, found⟩), ?_⟩
    intro id other order rival row counterpart found held unsettled rival_open fits rival_fits
    exact apart (id, order) (Dict.mem_entries_iff.mpr found) (other, rival)
      (Dict.mem_entries_iff.mpr held) unsettled rival_open row fits counterpart rival_fits

instance (rows : List BrokerOrderStatus) (orders : Dict String Order) :
    Decidable (Unrivalled rows orders) :=
  decidable_of_iff' _ (unrivalled_iff rows orders)

/-- An order with the broker numbers of another. -/
def numbered (order source : Order) : Order :=
  { order with
    brokerOrderNo := source.brokerOrderNo, brokerOrgNo := source.brokerOrgNo
    brokerOrderTime := source.brokerOrderTime }

section FirstPass
variable (rows : List BrokerOrderStatus) (base : Dict String Order)

/-- What the first pass makes of an order that is met before any other. -/
def firstChoice (order : Order) : Order := (adoptOrder rows (knownNumbers base) order).item

/-- An order of the books at the start, at some later point of the passes. -/
structure Staged (before now : Order) : Prop where
  intent : now.intent = before.intent
  created : now.createdAt = before.createdAt
  unknown : now.status = .unknown → before.status = .unknown
  numbers : now = numbered now before ∨ now = numbered now (firstChoice rows base before)

/-- What the first pass makes of such an order. -/
def adoptedNow (before now : Order) : Order :=
  if now.status = .unknown then numbered now (firstChoice rows base before) else now

/-- An order of the books took over its only row, which has this number. -/
def Claimed (now : Dict String Order) (number : String) : Prop :=
  ∃ id before order row, base.get? id = some before ∧ before.status = .unknown ∧
    candidates rows (knownNumbers base) before = [row] ∧ row.brokerOrderNo = number ∧
    now.get? id = some order ∧ order.brokerOrderNo = some number

/-- The numbers known midway: those known at the start and those claimed since. -/
structure Knows (known : List String) (now : Dict String Order) : Prop where
  since : ∀ number ∈ knownNumbers base, number ∈ known
  claimed : ∀ number ∈ known, number ∈ knownNumbers base ∨ Claimed rows base now number

variable {rows base}

theorem first_choice_or (order : Order) :
    firstChoice rows base order = order ∨ ∃ row, order.status = .unknown ∧
      candidates rows (knownNumbers base) order = [row] ∧
      (firstChoice rows base order).brokerOrderNo = some row.brokerOrderNo := by
  unfold firstChoice
  have visited := adopt_order_step rows (knownNumbers base) order
  generalize adoptOrder rows (knownNumbers base) order = visit at visited
  cases visited with
  | idle => exact .inl rfl
  | ambiguous => exact .inl rfl
  | adopted unknown row single => exact .inr ⟨row, unknown, single, rfl⟩

theorem first_choice_single (unknown : order.status = .unknown)
    (single : candidates rows (knownNumbers base) order = [row]) :
    firstChoice rows base order = { order with
      brokerOrderNo := some row.brokerOrderNo, brokerOrgNo := some row.orgNo,
      brokerOrderTime := some row.orderTime } := by
  simp [firstChoice, adoptOrder, unknown, single]

/-- A number once bound is not given up. -/
theorem first_choice_bound (clean : Unrivalled rows base) {id number : String}
    (found : base.get? id = some order) (bound : order.brokerOrderNo = some number) :
    firstChoice rows base order = order := by
  rcases first_choice_or order with same | ⟨row, unknown, single, -⟩
  · exact same
  · rw [clean.clear id order found unknown (by simp [bound])] at single
    cases single

theorem staged_refl (order : Order) : Staged rows base order order :=
  ⟨rfl, rfl, fun unknown => unknown, .inl rfl⟩

theorem adopted_now_start (order : Order) :
    adoptedNow rows base order order = firstChoice rows base order := by
  unfold adoptedNow
  split
  · rename_i unknown
    rcases first_choice_or order with same | ⟨row, -, single, -⟩
    · rw [same]
      rfl
    · rw [first_choice_single unknown single]
      rfl
  · rename_i different
    simp [firstChoice, adoptOrder, different]

private theorem candidates_filter
    (since : ∀ number ∈ knownNumbers base, number ∈ known) (intent : now.intent = before.intent)
    (created : now.createdAt = before.createdAt) :
    candidates rows known now = (candidates rows (knownNumbers base) before).filter
      fun row => row.brokerOrderNo ∉ known := by
  unfold candidates
  rw [List.filter_filter]
  apply List.filter_congr
  intro row _
  rw [Bool.eq_iff_iff, Bool.and_eq_true]
  simp only [isCandidate, decide_eq_true_eq, matchThreshold, expectedPrice, intent, created]
  exact ⟨fun fits => ⟨fits.1, decide_eq_true ⟨fun early => fits.1 (since _ early), fits.2⟩⟩,
    fun fits => ⟨fits.1, (of_decide_eq_true fits.2).2⟩⟩

variable {id : String}

section

variable (clean : Unrivalled rows base) (knows : Knows rows base known now)
  (source : base.get? id = some before) (unknown : before.status = .unknown)
  (found : now.get? id = some order) (staged : Staged rows base before order)
include clean knows source unknown found staged

private theorem knows_candidates :
    candidates rows known order = candidates rows (knownNumbers base) before ∨
      ∃ row, candidates rows (knownNumbers base) before = [row] ∧
        order.brokerOrderNo = some row.brokerOrderNo := by
  by_cases untouched : ∀ row ∈ candidates rows (knownNumbers base) before, row.brokerOrderNo ∉ known
  · refine .inl ?_
    rw [candidates_filter knows.since staged.intent staged.created]
    exact List.filter_eq_self.mpr fun row member => decide_eq_true (untouched row member)
  · push Not at untouched
    obtain ⟨row, member, taken⟩ := untouched
    rcases knows.claimed _ taken with early | ⟨other, rival, later, own, held, unsettled, single, same, here, bound⟩
    · obtain ⟨-, fits⟩ := List.mem_filter.mp member
      simp only [isCandidate, decide_eq_true_eq] at fits
      exact absurd early fits.1
    · have owner : id = other := clean.apart id other before rival row own source held unknown unsettled
        member (by simp [single]) same.symm
      subst owner
      rw [source] at held
      rw [found] at here
      cases held
      cases here
      exact .inr ⟨own, single, by rw [bound, same]⟩

private theorem choice_midway :
    (∀ row, candidates rows known order = [row] →
      candidates rows (knownNumbers base) before = [row]) ∧
    ((∀ row, candidates rows known order ≠ [row]) →
      order = numbered order (firstChoice rows base before)) := by
  rcases knows_candidates clean knows source unknown found staged with same | ⟨row, single, bound⟩
  · rw [same]
    refine ⟨fun row single => single, fun several => ?_⟩
    have choice : firstChoice rows base before = before := by
      rcases first_choice_or before with kept | ⟨row, -, single, -⟩
      · exact kept
      · exact absurd single (several row)
    rcases staged.numbers with own | own
    · rwa [choice]
    · exact own
  · constructor
    · intro other midway
      rw [candidates_filter knows.since staged.intent staged.created, single] at midway
      have member : other ∈ [row] := List.mem_of_mem_filter (by rw [midway]; exact List.mem_singleton_self _)
      rw [single, List.mem_singleton.mp member]
    · intro _
      rcases staged.numbers with own | own
      · have taken : before.brokerOrderNo = some row.brokerOrderNo := by
          rw [own] at bound
          exact bound
        rwa [first_choice_bound clean source taken]
      · exact own

end

private theorem knows_claim (knows : Knows rows base known now)
    (source : base.get? id = some before) (unknown : before.status = .unknown)
    (single : candidates rows (knownNumbers base) before = [row])
    (bound : order.brokerOrderNo = some row.brokerOrderNo) :
    Knows rows base (known ++ [row.brokerOrderNo]) (now.set id order) := by
  have own : Claimed rows base (now.set id order) row.brokerOrderNo :=
    ⟨id, before, order, row, source, unknown, single, rfl, Dict.get?_set_self _ _ _, bound⟩
  refine ⟨fun number member => List.mem_append_left _ (knows.since number member), ?_⟩
  intro number member
  rcases List.mem_append.mp member with early | late
  · rcases knows.claimed number early with start | claimed
    · exact .inl start
    · obtain ⟨other, rival, later, theirs, held, unsettled, only, same, here, taken⟩ := claimed
      by_cases equal : other = id
      · subst equal
        rw [source] at held
        cases held
        rw [single] at only
        cases only
        exact .inr (same ▸ own)
      · exact .inr ⟨other, rival, later, theirs, held, unsettled, only, same,
          by rwa [Dict.get?_set_of_ne equal], taken⟩
  · rw [List.mem_singleton.mp late]
    exact .inr own

private theorem adopt_visit (clean : Unrivalled rows base)
    (knows : Knows rows base known now) (source : base.get? id = some before)
    (found : now.get? id = some order) (staged : Staged rows base before order) :
    (adoptOrder rows known order).item = adoptedNow rows base before order ∧
      Knows rows base (adoptOrder rows known order).state
        (now.set id (adoptOrder rows known order).item) := by
  have kept : Knows rows base known (now.set id order) := by rwa [Dict.set_same found]
  have visited := adopt_order_step rows known order
  generalize adoptOrder rows known order = visit at visited
  unfold adoptedNow
  split
  · rename_i unknown
    have began := staged.unknown unknown
    obtain ⟨only, idle⟩ := choice_midway clean knows source began found staged
    cases visited with
    | idle unmatched => exact ⟨idle fun row single => by simp [unmatched unknown] at single, kept⟩
    | ambiguous _ several =>
      exact ⟨idle fun row single => by simp [single] at several, kept⟩
    | adopted _ row single =>
      refine ⟨?_, knows_claim knows source began (only row single) rfl⟩
      rw [first_choice_single began (only row single)]
      rfl
  · rename_i different
    cases visited with
    | idle => exact ⟨rfl, kept⟩
    | ambiguous unknown => exact absurd unknown different
    | adopted unknown => exact absurd unknown different

/-- Books in which every order of the start is somewhere on its way. -/
structure StagedBooks (rows : List BrokerOrderStatus) (base now : Dict String Order) : Prop where
  keys : now.keys = base.keys
  staged : ∀ id order, now.get? id = some order →
    ∃ before, base.get? id = some before ∧ Staged rows base before order

private theorem knows_start (clean : Unrivalled rows base)
    (books : StagedBooks rows base now) : Knows rows base (knownNumbers now) now := by
  constructor
  · intro number member
    obtain ⟨before, inside, picked⟩ := List.mem_filterMap.mp member
    obtain ⟨bound, nonempty⟩ := Option.filter_eq_some_iff.mp picked
    obtain ⟨id, source⟩ := Dict.mem_values_iff.mp inside
    obtain ⟨order, found⟩ := Dict.present_of_keys books.keys.symm source
    obtain ⟨again, held, staged⟩ := books.staged id order found
    rw [source] at held
    cases held
    refine covers_known now id order number found ?_ (of_decide_eq_true nonempty)
    rcases staged.numbers with own | own
    · rw [own]
      exact bound
    · rw [first_choice_bound clean source bound] at own
      rw [own]
      exact bound
  · intro number member
    obtain ⟨order, inside, picked⟩ := List.mem_filterMap.mp member
    obtain ⟨bound, nonempty⟩ := Option.filter_eq_some_iff.mp picked
    obtain ⟨id, found⟩ := Dict.mem_values_iff.mp inside
    obtain ⟨before, source, staged⟩ := books.staged id order found
    have early : before.brokerOrderNo = some number → number ∈ knownNumbers base := fun own =>
      covers_known base id before number source own (of_decide_eq_true nonempty)
    rcases staged.numbers with own | own
    · rw [own] at bound
      exact .inl (early bound)
    · have chosen : (firstChoice rows base before).brokerOrderNo = some number := by
        rw [own] at bound
        exact bound
      rcases first_choice_or before with same | ⟨row, unknown, single, number_of⟩
      · rw [same] at chosen
        exact .inl (early chosen)
      · rw [number_of] at chosen
        cases chosen
        exact .inr ⟨id, before, order, row, source, unknown, single, rfl, found, bound⟩

theorem adopt_stop (known : List String) (orders : Dict String Order) :
    (orders.sweep (adoptOrder rows) known).stop = none := by
  by_contra raised
  obtain ⟨err, stopped⟩ := Option.ne_none_iff_exists'.mp raised
  obtain ⟨state, now, out, key, order, -, -, -, stop⟩ :=
    Dict.sweep_stop (fun _ _ _ => True) (fun _ _ _ _ _ _ _ _ => trivial) [] trivial stopped
  have visited := adopt_order_step rows state order
  generalize adoptOrder rows state order = visit at visited stop
  cases visited <;> cases stop

/-- The first pass from any point on gives every order its first choice. -/
theorem adopt_pass (clean : Unrivalled rows base) (books : StagedBooks rows base now)
    (held : (now.sweep (adoptOrder rows) (knownNumbers now)).items.get? id = some after) :
    ∃ before order, base.get? id = some before ∧ now.get? id = some order ∧
      after = adoptedNow rows base before order := by
  obtain ⟨known, midway, out, order, found, present, knows, visited⟩ :=
    Dict.sweep_visited (fun known now (_ : List Event) => Knows rows base known now)
      (fun known midway out id order found present knows => by
        obtain ⟨before, source, staged⟩ := books.staged id order found
        exact (adopt_visit clean knows source present staged).2)
      [] (knows_start clean books) (adopt_stop _ _) held
  obtain ⟨before, source, staged⟩ := books.staged id order found
  exact ⟨before, order, source, found,
    visited.symm.trans (adopt_visit clean knows source present staged).1⟩

theorem staged_start (rows : List BrokerOrderStatus) (base : Dict String Order) :
    StagedBooks rows base base :=
  ⟨rfl, fun _ order found => ⟨order, found, staged_refl order⟩⟩

theorem adopt_pass_start (clean : Unrivalled rows base) {after : Order}
    (held : (base.sweep (adoptOrder rows) (knownNumbers base)).items.get? id = some after) :
    ∃ before, base.get? id = some before ∧ after = firstChoice rows base before := by
  obtain ⟨before, order, source, found, rfl⟩ := adopt_pass clean (staged_start rows base) held
  rw [source] at found
  cases found
  exact ⟨before, source, adopted_now_start before⟩

/-- How far a visit of the first pass has come before its one record. -/
def adoptPart (known : List String) (order : Order) (_ : Nat) : List String × Order := (known, order)

theorem adopt_emitted (rows : List BrokerOrderStatus) (known : List String) (order : Order) :
    (adoptOrder rows known order).emitted.length ≤ 1 := by
  have visited := adopt_order_step rows known order
  generalize adoptOrder rows known order = visit at visited
  cases visited <;> simp

/-- Midway through the first pass an order is untouched or has its first choice. -/
theorem adopt_cut (clean : Unrivalled rows base) (records : Nat)
    (held : (base.sweepCut (adoptOrder rows) adoptPart (knownNumbers base) records).2.get? id =
      some order) :
    ∃ before, base.get? id = some before ∧
      (order = before ∨ order = firstChoice rows base before) := by
  let Inv := fun (known : List String) (now : Dict String Order) (_ : List Event) =>
    Knows rows base known now ∧ ∀ id order, now.get? id = some order →
      ∃ before, base.get? id = some before ∧ (order = before ∨ order = firstChoice rows base before)
  have step : ∀ known (now : Dict String Order) out id order, base.get? id = some order →
      now.get? id = some order → Inv known now out →
      Inv (adoptOrder rows known order).state (now.set id (adoptOrder rows known order).item)
        (out ++ (adoptOrder rows known order).emitted) := by
    rintro known now out id order source present ⟨knows, choices⟩
    obtain ⟨item, knows⟩ := adopt_visit clean knows source present (staged_refl order)
    exact ⟨knows,
      Dict.forall_set ⟨order, source, .inr (item.trans (adopted_now_start order))⟩ choices⟩
  have partly : ∀ known (now : Dict String Order) out id order records,
      base.get? id = some order → now.get? id = some order → Inv known now out →
      records < (adoptOrder rows known order).emitted.length →
      Inv (adoptPart known order records).1 (now.set id (adoptPart known order records).2)
        (out ++ (adoptOrder rows known order).emitted.take records) := by
    intro known now out id order records _ present so_far _
    rw [adoptPart, Dict.set_same present]
    exact so_far
  have start : Inv (knownNumbers base) base [] :=
    ⟨knows_start clean (staged_start rows base), fun id order found => ⟨order, found, .inl rfl⟩⟩
  exact (Dict.sweep_cut_invariant Inv step partly [] start (adopt_stop _ _) records).2 id order held

theorem staged_choice (before : Order) : Staged rows base before (firstChoice rows base before) := by
  rcases first_choice_or before with same | ⟨row, unknown, single, -⟩
  · rw [same]
    exact staged_refl before
  · refine ⟨?_, ?_, fun _ => unknown, .inr rfl⟩ <;> rw [first_choice_single unknown single]

/-- An order with its first choice's numbers is left alone. -/
theorem adopted_now_same (own : order = numbered order (firstChoice rows base before)) :
    adoptedNow rows base before order = order := by
  unfold adoptedNow
  split
  · exact own.symm
  · rfl

/-- The first pass begun again after a cut ends where it would have ended. -/
theorem adopt_resumed (clean : Unrivalled rows base) (records : Nat) :
    let cut := (base.sweepCut (adoptOrder rows) adoptPart (knownNumbers base) records).2
    (cut.sweep (adoptOrder rows) (knownNumbers cut)).items =
      (base.sweep (adoptOrder rows) (knownNumbers base)).items := by
  intro cut
  have keys : cut.keys = base.keys := Dict.keys_sweep_cut _ _ _
  have books : StagedBooks rows base cut := by
    refine ⟨keys, fun id order found => ?_⟩
    obtain ⟨before, source, rfl | rfl⟩ := adopt_cut clean records found
    · exact ⟨order, source, staged_refl order⟩
    · exact ⟨before, source, staged_choice before⟩
  apply Dict.ext_get? (by rw [Dict.keys_sweep, Dict.keys_sweep, keys])
  intro id after held
  obtain ⟨before, order, source, found, rfl⟩ := adopt_pass clean books held
  have chosen : adoptedNow rows base before order = firstChoice rows base before := by
    obtain ⟨again, same, rfl | rfl⟩ := adopt_cut clean records found
    · rw [source] at same
      cases same
      exact adopted_now_start before
    · rw [source] at same
      cases same
      exact adopted_now_same rfl
  obtain ⟨other, present⟩ := Dict.present_of_keys (Dict.keys_sweep (adoptOrder rows) _ _).symm source
  obtain ⟨again, same, rfl⟩ := adopt_pass_start clean present
  rw [source] at same
  cases same
  rw [present, chosen]

/-- The first pass over books past it changes nothing. -/
theorem adopt_past (clean : Unrivalled rows base) (books : StagedBooks rows base now)
    (past : ∀ id before order, base.get? id = some before → now.get? id = some order →
      order = numbered order (firstChoice rows base before)) :
    (now.sweep (adoptOrder rows) (knownNumbers now)).items = now := by
  apply Dict.ext_get? (Dict.keys_sweep _ _ _)
  intro id after held
  obtain ⟨before, order, source, found, rfl⟩ := adopt_pass clean books held
  rw [found, adopted_now_same (past id before order source found)]

end FirstPass
/-! ### The second pass -/

section SecondPass
variable {rows : List BrokerOrderStatus}

/-- How far a visit of the second pass has come: after the record of its fill
the status is still to be written. -/
def applyPart (rows : List BrokerOrderStatus) (ledger : Ledger) (order : Order) (records : Nat) :
    Ledger × Order :=
  if records = 0 then (ledger, order)
  else ((applyOrder rows ledger order).state,
    { (applyOrder rows ledger order).item with status := order.status })

/-- An order that holds its row's figures takes over only the status. -/
theorem apply_level (ledger : Ledger) (order : Order)
    (live : order.status ∉ terminalStatuses) (listed : rowOf rows order = some row)
    (level : row.filledQty = order.filledQty) (amount : row.filledAmountKrw = order.filledAmountKrw)
    (high : row.filledQty ≤ order.intent.qty)
    (read : deriveStatus row (hasCancelChild rows order) = .ok status)
    (moved : transition order.status status = .ok status) :
    applyOrder rows ledger order = {
      state := ledger, item := { order with status }
      emitted := statusRecords rows order row status [] } := by
  have inside : ¬ (row.filledQty < order.filledQty ∨ row.filledQty > order.intent.qty) := by omega
  have unchanged : ¬ row.filledQty - order.filledQty > 0 := by omega
  simp only [applyOrder, if_neg live, listed, if_neg inside, read, if_neg unchanged]
  simp only [settleRow, moved, statusRecords, level, amount, List.nil_append]

theorem apply_resumable (rows : List BrokerOrderStatus) :
    Resumable (applyOrder rows) (applyPart rows) where
  settled ledger again order through := by
    have visited := apply_order_step rows ledger order
    generalize applyOrder rows ledger order = visit at visited through
    cases visited with
    | idle skipped =>
      rcases skipped with terminal | unlisted
      · simp [applyOrder, terminal]
      · simp [applyOrder, unlisted]
    | refused => cases through
    | stuck => cases through
    | taken live row listed low high status read paid fills took moved =>
      by_cases terminal : status ∈ terminalStatuses
      · simp [applyOrder, terminal]
      · rw [apply_level again { order with
          filledQty := row.filledQty, filledAmountKrw := row.filledAmountKrw, status }
          terminal listed rfl rfl high read (transition_self status)]
        simp [statusRecords]
  finishes ledger order records through inside := by
    unfold applyPart
    split
    · exact ⟨rfl, rfl, through⟩
    · rename_i later
      have visited := apply_order_step rows ledger order
      generalize applyOrder rows ledger order = visit at visited through inside
      cases visited with
      | idle => cases inside
      | refused => cases through
      | stuck => cases through
      | taken live row listed low high status read paid fills took moved =>
        rw [apply_level paid { order with
          filledQty := row.filledQty, filledAmountKrw := row.filledAmountKrw }
          live listed rfl rfl high read moved]
        exact ⟨rfl, rfl, rfl⟩

/-- What the second pass may have made of an order midway. -/
structure AppliedTo (adopted order : Order) : Prop where
  intent : order.intent = adopted.intent
  created : order.createdAt = adopted.createdAt
  unknown : order.status = .unknown → adopted.status = .unknown
  numbers : order = numbered order adopted

theorem apply_applied (rows : List BrokerOrderStatus) (ledger : Ledger) (order : Order) :
    AppliedTo order (applyOrder rows ledger order).item := by
  have visited := apply_order_step rows ledger order
  generalize applyOrder rows ledger order = visit at visited
  cases visited with
  | idle => exact ⟨rfl, rfl, fun unknown => unknown, rfl⟩
  | refused => exact ⟨rfl, rfl, fun unknown => unknown, rfl⟩
  | stuck => exact ⟨rfl, rfl, fun unknown => unknown, rfl⟩
  | taken _ _ _ _ _ status read =>
    exact ⟨rfl, rfl, fun unknown => absurd unknown (derive_status_known read).2, rfl⟩

theorem apply_part_applied (rows : List BrokerOrderStatus) (ledger : Ledger) (order : Order)
    (records : Nat) : AppliedTo order (applyPart rows ledger order records).2 := by
  unfold applyPart
  split
  · exact ⟨rfl, rfl, fun unknown => unknown, rfl⟩
  · obtain ⟨intent, created, -, numbers⟩ := apply_applied rows ledger order
    refine ⟨intent, created, fun unknown => unknown, ?_⟩
    rw [numbers]
    rfl

/-- Midway through the second pass every order is one of the first pass's. -/
theorem apply_cut {adopted : Dict String Order} {ledger : Ledger}
    (went : (adopted.sweep (applyOrder rows) ledger).stop = none) (records : Nat) {id : String}
    (held : (adopted.sweepCut (applyOrder rows) (applyPart rows) ledger records).2.get? id =
      some order) : ∃ before, adopted.get? id = some before ∧ AppliedTo before order := by
  let Inv := fun (_ : Ledger) (now : Dict String Order) (_ : List Event) =>
    ∀ id order, now.get? id = some order → ∃ before, adopted.get? id = some before ∧
      AppliedTo before order
  have written : ∀ {now : Dict String Order} {id : String} {order next : Order},
      adopted.get? id = some order → AppliedTo order next →
      (∀ id order, now.get? id = some order → ∃ before, adopted.get? id = some before ∧
        AppliedTo before order) →
      ∀ probe order, (now.set id next).get? probe = some order →
        ∃ before, adopted.get? probe = some before ∧ AppliedTo before order :=
    fun source applied so_far => Dict.forall_set ⟨_, source, applied⟩ so_far
  exact Dict.sweep_cut_invariant Inv
    (fun ledger now out id order source _ so_far =>
      written source (apply_applied rows ledger order) so_far)
    (fun ledger now out id order records source _ so_far _ =>
      written source (apply_part_applied rows ledger order records) so_far)
    [] (fun id order found => ⟨order, found, rfl, rfl, fun unknown => unknown, rfl⟩) went records
    id order held

end SecondPass

/-! ### Both passes -/

section Both
variable {rows : List BrokerOrderStatus} {base : Dict String Order} {ledger : Ledger}

/-- The ledger and the books after the first so many records of both passes. -/
def passesCut (rows : List BrokerOrderStatus) (base : Dict String Order) (ledger : Ledger)
    (records : Nat) : Ledger × Dict String Order :=
  let adopted := base.sweep (adoptOrder rows) (knownNumbers base)
  if records < adopted.emitted.length then
    (ledger, (base.sweepCut (adoptOrder rows) adoptPart (knownNumbers base) records).2)
  else
    adopted.items.sweepCut (applyOrder rows) (applyPart rows) ledger
      (records - adopted.emitted.length)

section

variable (clean : Unrivalled rows base) (went : (passes rows base ledger).stop = none)
  (records : Nat)
include clean went records

private theorem adopt_applied :
    let cut := ((base.sweep (adoptOrder rows) (knownNumbers base)).items.sweepCut (applyOrder rows)
      (applyPart rows) ledger records).2
    (cut.sweep (adoptOrder rows) (knownNumbers cut)).items = cut := by
  intro cut
  have source : ∀ id order, cut.get? id = some order → ∃ before, base.get? id = some before ∧
      AppliedTo (firstChoice rows base before) order := by
    intro id order found
    obtain ⟨adopted, held, applied⟩ := apply_cut went records found
    obtain ⟨before, source, rfl⟩ := adopt_pass_start clean held
    exact ⟨before, source, applied⟩
  have keys : cut.keys = base.keys := (Dict.keys_sweep_cut _ _ _).trans (Dict.keys_sweep _ _ _)
  refine adopt_past clean ⟨keys, fun id order found => ?_⟩ fun id before order held found => ?_
  · obtain ⟨before, held, applied⟩ := source id order found
    obtain ⟨intent, created, unknown, -⟩ := (staged_choice before : Staged rows base _ _)
    exact ⟨before, held, applied.intent.trans intent, applied.created.trans created,
      fun now => unknown (applied.unknown now), .inr applied.numbers⟩
  · obtain ⟨again, same, applied⟩ := source id order found
    rw [held] at same
    cases same
    exact applied.numbers

/-- Both passes begun again after a cut end where they would have ended. -/
theorem passes_resumed : let cut := passesCut rows base ledger records
    (passes rows cut.2 cut.1).state = (passes rows base ledger).state ∧
      (passes rows cut.2 cut.1).items = (passes rows base ledger).items ∧
      (passes rows cut.2 cut.1).stop = none := by
  by_cases early : records < (base.sweep (adoptOrder rows) (knownNumbers base)).emitted.length
  · simp only [passesCut, if_pos early, passes, adopt_resumed clean records]
    exact ⟨trivial, trivial, went⟩
  · simp only [passesCut, if_neg early, passes, adopt_applied clean went]
    exact Dict.sweep_resume (apply_resumable rows) _ ledger _ went

end

end Both
end KrxAlpha
