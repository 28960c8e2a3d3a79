import KrxAlpha.RestoreProofs

/-! Sessions that restart. A process may die after any append of any
operation; the next one is restored from the journal as it then stands. What
holds of an order before a restart holds of the restored one, as far as the
journal tells. -/
namespace KrxAlpha
open OrderManager

/-! ### Moves -/

/-- Events that open a session. -/
def Event.opens : Event → Bool
  | .sessionStart .. => true
  | .positionMismatch .. => true
  | _ => false

/-- What can happen to a session within a day. A clean restart is one that
dies while closing; the builder writes down what it found. -/
inductive Move where
  | op (op : Op)
  | restart (during : Op) (appends : Nat) (limits : RiskLimits) (holdings : List Holding)
  | announce (at_ : Timestamp) (event : Event) (opens : event.opens)

/-- The journal after the first so many appends of an operation. -/
def cutJournal (m : OrderManager) (op : Op) (appends : Nat) : List Record :=
  m.journal ++ ((m.step op).journal.drop m.journal.length).take appends

/-- A restart fails when the restore raises. -/
def advance (day : Int) (m : OrderManager) : Move → Except Error OrderManager
  | .op op => .ok (m.step op)
  | .restart during appends limits holdings =>
    resume (cutJournal m during appends) m.mode limits m.costs day holdings
  | .announce at_ event _ => .ok (m.record at_ event)

def travel (day : Int) (m : OrderManager) (moves : List Move) : Except Error OrderManager :=
  moves.foldlM (advance day) m

/-- Every move meets a condition on the manager it starts from. -/
def AlongMoves (day : Int) (Meets : OrderManager → Move → Prop) : OrderManager → List Move → Prop
  | _, [] => True
  | m, move :: rest =>
    Meets m move ∧ ∀ next, advance day m move = .ok next → AlongMoves day Meets next rest

/-- Moves of one broker-backed day: operations meet a condition of their own,
and a restart finds the journal's records on that day. -/
def WithinDay (day : Int) (Meets : OrderManager → Op → Prop) (m : OrderManager) : Move → Prop
  | .op op => Meets m op
  | .restart during appends _ _ => Meets m during ∧ m.mode ≠ .paper ∧
      ∀ record ∈ cutJournal m during appends, dayOf record.ts = day
  | .announce .. => True

instance {Meets : OrderManager → Op → Prop} [∀ m op, Decidable (Meets m op)] (day : Int)
    (m : OrderManager) (move : Move) : Decidable (WithinDay day Meets m move) :=
  match move with
  | .op op => inferInstanceAs (Decidable (Meets m op))
  | .restart during appends _ _ => inferInstanceAs (Decidable (Meets m during ∧ m.mode ≠ .paper ∧
      ∀ record ∈ cutJournal m during appends, dayOf record.ts = day))
  | .announce .. => inferInstanceAs (Decidable True)

section Travel
variable {day : Int} {m last : OrderManager} {moves : List Move}
  {Meets : OrderManager → Move → Prop}

/-- What one move preserves, a journey preserves. -/
theorem travel_preserves (Inv : OrderManager → Prop)
    (step : ∀ m move next, Meets m move → advance day m move = .ok next → Inv m → Inv next)
    (meets : AlongMoves day Meets m moves) (went : travel day m moves = .ok last) (holds : Inv m) :
    Inv last := by
  induction moves generalizing m with
  | nil =>
    cases went
    exact holds
  | cons move rest ih =>
    rw [travel, List.foldlM_cons] at went
    obtain ⟨next, moved, later⟩ := bind_ok went
    exact ih (meets.2 next moved) later (step m move next meets.1 moved holds)

theorem along_moves_append
    (meets : AlongMoves day Meets m (first ++ second)) (went : travel day m first = .ok last) :
    AlongMoves day Meets m first ∧ AlongMoves day Meets last second := by
  induction first generalizing m with
  | nil =>
    cases went
    exact ⟨trivial, meets⟩
  | cons move rest ih =>
    rw [travel, List.foldlM_cons] at went
    obtain ⟨next, moved, later⟩ := bind_ok went
    obtain ⟨-, after⟩ := ih (meets.2 next moved) later
    refine ⟨⟨meets.1, fun other same => ?_⟩, after⟩
    rw [moved] at same
    cases same
    exact (ih (meets.2 next moved) later).1

end Travel

/-- A process that dies during an operation dies between two of its actions. -/
theorem cut_reached (m : OrderManager) (op : Op) (appends : Nat) :
    ∃ mid, Actions m op m mid ∧ mid.mode = m.mode ∧ mid.journal = cutJournal m op appends := by
  obtain ⟨-, new, appended, -, cut⟩ := actions_cut (step_actions m op)
  obtain ⟨mid, chain, journal⟩ := cut appends
  refine ⟨mid, chain, (actions_cut chain).1, ?_⟩
  rw [journal, cutJournal, appended, List.drop_left]

/-! ### The journal shadows the manager -/

/-- Whatever the journal replays to, if it is accepted, matches the manager. -/
structure Shadowed (terms : Terms) (m : OrderManager) : Prop where
  filed : Filed m
  modes : ∀ record ∈ m.journal, record.mode = m.mode
  follows : ∀ replayed, m.journal.foldlM replayRecord ∅ = .ok replayed →
    Mirror terms replayed m.orders

theorem action_shadowed
    (action : Action start op m after) (meets : terms.Meets start op) (shadowed : Shadowed terms m) :
    Shadowed terms after := by
  obtain ⟨-, new, appended, -⟩ := action_appends action
  refine ⟨action_filed action shadowed.filed, ?_, ?_⟩
  · exact action_modes action shadowed.modes
  · intro next accepted
    rw [appended, List.foldlM_append] at accepted
    obtain ⟨replayed, before, later⟩ := bind_ok accepted
    obtain ⟨same, journal, matched, -⟩ :=
      action_replays action meets shadowed.filed (shadowed.follows replayed before)
    rw [appended] at journal
    rw [← List.append_cancel_left journal] at matched
    exact matched next later

theorem actions_shadowed
    (chain : Actions start op m after) (meets : terms.Meets start op) (shadowed : Shadowed terms m) :
    Shadowed terms after :=
  actions_preserve (Shadowed terms) (fun _ _ action now => action_shadowed action meets now) chain
    shadowed

/-- The books a restore builds match the records they were built from. -/
theorem mirror_pending (terms : Terms) (replayed : Dict String Order) :
    Mirror terms replayed (replayed.mapValues readPending) where
  order := by rw [Dict.keys_mapValues]
  twin {id copy} found := by
    exact ⟨readPending copy, by rw [Dict.get?_mapValues, found]; rfl, rfl, rfl,
      (shown_shown copy.status).symm, fun _ bound => bound, fun _ => ⟨rfl, rfl⟩, rfl, fun _ => rfl,
      fun _ => rfl⟩
  unsent {id order} found missing := by
    rw [Dict.get?_mapValues, missing] at found
    cases found

/-- What a successful restart did: the books are what the journal replays to. -/
structure Restored (terms : Terms) (mid next : OrderManager) (replayed : Dict String Order) : Prop where
  read : mid.journal.foldlM replayRecord ∅ = .ok replayed
  mirror : Mirror terms replayed mid.orders
  orders : next.orders = replayed.mapValues readPending
  journal : next.journal = mid.journal
  mode : next.mode = mid.mode
  filed : Filed next

theorem resume_restored {limits : RiskLimits} {costs : CostModel} (shadowed : Shadowed terms mid)
    (broker : mid.mode ≠ .paper) (today : ∀ record ∈ mid.journal, dayOf record.ts = day)
    (resumed : resume mid.journal mid.mode limits costs day holdings = .ok next) :
    ∃ replayed, Restored terms mid next replayed := by
  unfold resume openSession at resumed
  have whole : readDay mid.journal mid.mode day = mid.journal :=
    read_day_all fun record member => ⟨today record member, shadowed.modes record member⟩
  rw [whole] at resumed
  obtain ⟨session, restored, done⟩ := bind_ok resumed
  cases done
  obtain ⟨replayed, read, orders, scanned, -⟩ := restore_session_parts broker restored
  have mirror := shadowed.follows replayed read
  refine ⟨replayed, read, mirror, orders, rfl, rfl, ?_, ?_⟩
  · intro id order found
    rw [orders, Dict.get?_mapValues] at found
    obtain ⟨copy, held, rfl⟩ := Option.map_eq_some_iff.mp found
    obtain ⟨live, present, twin⟩ := mirror.twin held
    exact twin.named.trans (shadowed.filed.named present)
  · intro id order found
    rw [orders, Dict.get?_mapValues] at found
    obtain ⟨copy, held, -⟩ := Option.map_eq_some_iff.mp found
    rcases replay_origin read held with ⟨before, empty⟩ | ⟨record, member, intent, ref, event⟩
    · cases empty
    · exact (scan_numbered scanned).2 record member id (by rw [event]; rfl)

theorem Restored.shadowed
    (restored : Restored terms mid next replayed) (before : Shadowed terms mid) :
    Shadowed terms next := by
  refine ⟨restored.filed, ?_, fun other accepted => ?_⟩
  · rw [restored.journal, restored.mode]
    exact before.modes
  · rw [restored.journal, restored.read] at accepted
    cases accepted
    rw [restored.orders]
    exact mirror_pending terms _

/-- The restored counterpart of an order whose intent is on record. -/
theorem Restored.order
    (restored : Restored terms mid next replayed) {id : String} {order copy : Order}
    (found : mid.orders.get? id = some order) (held : replayed.get? id = some copy) :
    next.orders.get? id = some (readPending copy) ∧ Twin terms order copy := by
  obtain ⟨live, present, twin⟩ := restored.mirror.twin held
  rw [found] at present
  cases present
  refine ⟨?_, twin⟩
  rw [restored.orders, Dict.get?_mapValues, held]
  rfl

/-- Records that open a session change no order. -/
private theorem replay_opening {records : List Record} (opens : ∀ record ∈ records, record.event.opens)
    (orders : Dict String Order) : records.foldlM replayRecord orders = .ok orders := by
  induction records with
  | nil => rfl
  | cons record rest ih =>
    have first : replayRecord orders record = .ok orders := by
      have here := opens record List.mem_cons_self
      obtain ⟨ts, mode, event⟩ := record
      cases event <;> first | rfl | cases here
    rw [List.foldlM_cons, first]
    exact ih fun other member => opens other (List.mem_cons_of_mem _ member)

theorem announce_shadowed (shadowed : Shadowed terms m) (at_ : Timestamp) (opens : event.opens) :
    Shadowed terms (m.record at_ event) := by
  refine ⟨⟨shadowed.filed.named, shadowed.filed.drawn⟩, record_modes shadowed.modes, ?_⟩
  intro next accepted
  simp only [OrderManager.record, List.foldlM_append] at accepted
  obtain ⟨replayed, before, later⟩ := bind_ok accepted
  rw [replay_opening (by simpa using opens)] at later
  cases later
  exact shadowed.follows _ before

/-- A restart restores a manager that the interrupted operation had reached. -/
theorem restart_restored {Meets : OrderManager → Op → Prop} {limits : RiskLimits}
    (meets : WithinDay day Meets m (.restart during appends limits holdings))
    (conditions : terms.Meets m during) (shadowed : Shadowed terms m)
    (moved : advance day m (.restart during appends limits holdings) = .ok next) :
    ∃ mid replayed, Actions m during m mid ∧ Shadowed terms mid ∧
      Restored terms mid next replayed := by
  obtain ⟨-, broker, today⟩ := meets
  obtain ⟨mid, chain, mode, journal⟩ := cut_reached m during appends
  have reached := actions_shadowed chain conditions shadowed
  simp only [advance, ← journal, ← mode] at moved
  obtain ⟨replayed, restored⟩ := resume_restored reached (mode ▸ broker) (journal ▸ today) moved
  exact ⟨mid, replayed, chain, reached, restored⟩

/-- Every move of the day keeps the journal a shadow of the manager. -/
theorem advance_shadowed {Meets : OrderManager → Op → Prop}
    (enough : ∀ m op, Meets m op → terms.Meets m op)
    (meets : WithinDay day Meets m move) (moved : advance day m move = .ok next)
    (shadowed : Shadowed terms m) : Shadowed terms next := by
  cases move with
  | op op =>
    cases moved
    exact actions_shadowed (step_actions m op) (enough m op meets) shadowed
  | restart during appends limits holdings =>
    obtain ⟨mid, replayed, -, reached, restored⟩ :=
      restart_restored meets (enough m during meets.1) shadowed moved
    exact restored.shadowed reached
  | announce at_ event opens =>
    cases moved
    exact announce_shadowed shadowed at_ opens

/-- The terms that ask nothing of a run. -/
def Terms.none : Terms := ⟨False, False, False⟩

theorem meets_none (m : OrderManager) (op : Op) : Terms.none.Meets m op :=
  ⟨False.elim, False.elim, False.elim⟩

/-- A manager with empty books, whose journal has at most session records. -/
structure Opened (m : OrderManager) : Prop where
  empty : m.orders = ∅
  journal : ∀ record ∈ m.journal, record.mode = m.mode ∧ record.event.opens

theorem opened_shadowed (terms : Terms) (opened : Opened m) : Shadowed terms m := by
  refine ⟨filed_of_empty opened.empty, fun record member => (opened.journal record member).1, ?_⟩
  intro replayed accepted
  rw [replay_opening (fun record member => (opened.journal record member).2)] at accepted
  cases accepted
  rw [opened.empty]
  exact Mirror.empty terms

/-- An invariant of moves that may use the shadowing journal. -/
theorem travel_shadowed {Meets : OrderManager → Op → Prop} (Inv : OrderManager → Prop)
    (step : ∀ m move next, WithinDay day Meets m move → advance day m move = .ok next →
      Shadowed Terms.none m → Inv m → Inv next)
    (meets : AlongMoves day (WithinDay day Meets) m moves) (went : travel day m moves = .ok last)
    (shadowed : Shadowed Terms.none m) (holds : Inv m) : Shadowed Terms.none last ∧ Inv last := by
  refine travel_preserves (fun now => Shadowed Terms.none now ∧ Inv now) ?_ meets went
    ⟨shadowed, holds⟩
  rintro now move next allowed moved ⟨so_far, kept⟩
  exact ⟨advance_shadowed (fun _ _ _ => meets_none _ _) allowed moved so_far,
    step now move next allowed moved so_far kept⟩

end KrxAlpha
