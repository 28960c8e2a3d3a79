import KrxAlpha.Restarts

/-! The day's journal is faithful: what it replays to is the live state, with
the same orders and the same ledger, as long as the broker moves a row's amount
only together with its quantity. -/
namespace KrxAlpha
open OrderManager

/-! ### What an action files -/

/-- The records of an action open nothing, and carry a new number exactly when
they register an order. -/
inductive Files (m after : OrderManager) : List Record → Prop where
  | plain (new : List Record)
      (quiet : ∀ record ∈ new, record.event.opens = false ∧ record.event.numberedId? = none)
      (keys : ∀ id order, after.orders.get? id = some order →
        ∃ before, m.orders.get? id = some before) : Files m after new
  | registers (record : Record) (env : SubmitEnv) (quiet : record.event.opens = false)
      (numbered : record.event.numberedId? = some (m.nextId env)) (counted : after.seq = m.seq + 1)
      (keys : ∀ id order, after.orders.get? id = some order →
        id = m.nextId env ∨ ∃ before, m.orders.get? id = some before) : Files m after [record]

section Actions
variable {start m after : OrderManager} {op : Op}

private theorem keys_of_set {orders : Dict String Order} (found : orders.get? key = some previous) :
    ∀ id order, (orders.set key next).get? id = some order →
      ∃ before, orders.get? id = some before :=
  Dict.forall_set ⟨previous, found⟩ fun _ order held => ⟨order, held⟩

private theorem keys_of_new {orders : Dict String Order} :
    ∀ id order, (orders.set key next).get? id = some order →
      id = key ∨ ∃ before, orders.get? id = some before :=
  Dict.forall_set (.inl rfl) fun _ order held => .inr ⟨order, held⟩

theorem action_files (action : Action start op m after) :
    ∃ new, after.journal = m.journal ++ new ∧ Files m after new := by
  cases action with
  | clerical => exact ⟨[], by simp, .plain _ (by simp) fun id order held => ⟨order, held⟩⟩
  | note id order at_ event inert named found live =>
    refine ⟨[_], rfl, .plain _ ?_ fun id order held => ⟨order, held⟩⟩
    intro record member
    rw [List.mem_singleton.mp member]
    cases event <;> first | exact ⟨rfl, rfl⟩ | cases inert
  | reject intent env code detail asked =>
    exact ⟨[_], rfl, .registers _ env rfl rfl rfl keys_of_new⟩
  | register intent env quote ref asked quoted passed =>
    exact ⟨[_], rfl, .registers _ env rfl rfl rfl keys_of_new⟩
  | settle intent env quote order settled outcome at_ asked replied found =>
    exact ⟨[_], rfl, .plain _ (by simp [Event.opens, Event.numberedId?]) (keys_of_set found)⟩
  | adopt id order known row clock source found =>
    exact ⟨_, rfl, .plain _ (by simp [stamp, Event.opens, Event.numberedId?]) (keys_of_set found)⟩
  | take id before order row paid fills clock source adopts found live listed low high took =>
    refine ⟨_, rfl, .plain _ ?_ (keys_of_set found)⟩
    cases took <;> simp [stamp, Event.opens, Event.numberedId?]
  | restate id order row status records clock found live listed level read moved restates =>
    refine ⟨_, rfl, .plain _ ?_ (keys_of_set found)⟩
    cases restates <;> simp [stamp, Event.opens, Event.numberedId?]
  | retire id reason order at_ found =>
    exact ⟨[_], rfl, .plain _ (by simp [Event.opens, Event.numberedId?]) (keys_of_set found)⟩

theorem first_holdings_append (front back : List Record) :
    firstHoldings (front ++ back) = (firstHoldings front).or (firstHoldings back) := by
  induction front with
  | nil => rfl
  | cons record rest ih =>
    obtain ⟨ts, mode, event⟩ := record
    cases event <;> first | rfl | exact ih

theorem first_holdings_quiet
    (quiet : ∀ record ∈ records, record.event.opens = false) : firstHoldings records = none := by
  induction records with
  | nil => rfl
  | cons record rest ih =>
    have here := quiet record List.mem_cons_self
    have later := ih fun other member => quiet other (List.mem_cons_of_mem _ member)
    obtain ⟨ts, mode, event⟩ := record
    cases event <;> first | exact later | cases here

/-! ### Faithfulness -/

/-- The journal tells the whole story: its ids are numbered, every order on the
books is on record, and orders and ledger replay to the live ones. -/
structure Faithful (terms : Terms) (snapshot : Option (Option (List Holding))) (opening : Ledger)
    (m : OrderManager) : Prop where
  filed : Filed m
  modes : ∀ record ∈ m.journal, record.mode = m.mode
  numbered : ∀ record ∈ m.journal, ∀ id, record.event.numberedId? = some id →
    ∃ seq ≤ m.seq, seqOf id = .ok seq
  recorded : ∀ id order, m.orders.get? id = some order →
    ∃ record ∈ m.journal, record.event.numberedId? = some id
  first : firstHoldings m.journal = snapshot
  replays : ∃ replayed, m.journal.foldlM replayStep (∅, opening) = .ok (replayed, m.ledger) ∧
    Mirror terms replayed m.orders

section

variable (files : Files m after new) (journal : after.journal = m.journal ++ new)
include files journal

private theorem files_numbered (grows : m.seq ≤ after.seq)
    (numbered : ∀ record ∈ m.journal, ∀ id, record.event.numberedId? = some id →
      ∃ seq ≤ m.seq, seqOf id = .ok seq) :
    ∀ record ∈ after.journal, ∀ id, record.event.numberedId? = some id →
      ∃ seq ≤ after.seq, seqOf id = .ok seq := by
  intro record member id named
  rw [journal] at member
  rcases List.mem_append.mp member with early | late
  · obtain ⟨seq, bound, read⟩ := numbered record early id named
    exact ⟨seq, Nat.le_trans bound grows, read⟩
  · cases files with
    | plain _ quiet keys =>
      rw [(quiet record late).2] at named
      cases named
    | registers only env quiet own counted keys =>
      rw [List.mem_singleton.mp late, own] at named
      cases named
      exact ⟨m.seq + 1, Nat.le_of_eq counted.symm, seq_of_client_id _ _ _⟩

private theorem files_recorded (recorded : ∀ id order, m.orders.get? id = some order →
      ∃ record ∈ m.journal, record.event.numberedId? = some id) :
    ∀ id order, after.orders.get? id = some order →
      ∃ record ∈ after.journal, record.event.numberedId? = some id := by
  intro id order found
  have old : (∃ before, m.orders.get? id = some before) →
      ∃ record ∈ after.journal, record.event.numberedId? = some id := by
    rintro ⟨before, held⟩
    obtain ⟨record, member, named⟩ := recorded id before held
    exact ⟨record, by rw [journal]; exact List.mem_append_left _ member, named⟩
  cases files with
  | plain _ quiet keys => exact old (keys id order found)
  | registers record env quiet own counted keys =>
    rcases keys id order found with rfl | earlier
    · exact ⟨record, by rw [journal]; simp, own⟩
    · exact old earlier

end

theorem action_faithful
    (fair : terms.fair) (action : Action start op m after) (meets : terms.Meets start op)
    (faithful : Faithful terms snapshot opening m) : Faithful terms snapshot opening after := by
  obtain ⟨new, journal, files⟩ := action_files action
  have quiet : ∀ record ∈ new, record.event.opens = false := by
    cases files with
    | plain _ quiet keys => exact fun record member => (quiet record member).1
    | registers only env quiet => exact fun record member => by rwa [List.mem_singleton.mp member]
  refine ⟨action_filed action faithful.filed, action_modes action faithful.modes,
    files_numbered files journal (action_seq action) faithful.numbered,
    files_recorded files journal faithful.recorded, ?_, ?_⟩
  · rw [journal, first_holdings_append, first_holdings_quiet quiet, Option.or_none, faithful.first]
  · obtain ⟨replayed, replays, mirror⟩ := faithful.replays
    obtain ⟨same, appended, matched, accepted⟩ := action_replays action meets faithful.filed mirror
    obtain ⟨next, done⟩ := accepted fair
    have orders := (replay_step_split done (same_intents_pending next)).1
    refine ⟨next, ?_, matched next orders⟩
    rw [appended, List.foldlM_append, replays]
    exact done

end Actions

/-! ### Restoring from a faithful journal -/

section Restore
variable {terms : Terms} {m : OrderManager} {opening : Ledger} {costs : CostModel}

/-- The passes a restore makes over a faithful journal all succeed. -/
theorem Faithful.passes (faithful : Faithful terms snapshot opening m) :
    ∃ replayed scan, m.journal.foldlM replayRecord ∅ = .ok replayed ∧
      m.journal.foldlM scanRecord (0, []) = .ok scan ∧
      m.journal.foldlM (replayFill (replayed.mapValues readPending)) opening = .ok m.ledger ∧
      Mirror terms replayed m.orders := by
  obtain ⟨replayed, replays, mirror⟩ := faithful.replays
  obtain ⟨orders, fills⟩ := replay_step_split replays (same_intents_pending replayed)
  obtain ⟨scan, scanned⟩ := scan_accepts (0, []) fun record member id named => by
    obtain ⟨seq, -, read⟩ := faithful.numbered record member id named
    exact ⟨seq, read⟩
  exact ⟨replayed, scan, orders, scanned, fills, mirror⟩

/-- A session opened on a valid snapshot restores its orders and its ledger. -/
theorem Faithful.restores (broker : m.mode ≠ .paper) (valid : ValidSnapshot holdings)
    (faithful : Faithful terms (some (some holdings)) (Ledger.ofHoldings costs holdings) m) :
    ∃ replayed scan, m.journal.foldlM replayRecord ∅ = .ok replayed ∧
      m.journal.foldlM scanRecord (0, []) = .ok scan ∧ Mirror terms replayed m.orders ∧
      restoreSession m.journal m.mode costs = .ok {
        orders := replayed.mapValues readPending, nextSeq := scan.1, submitTimes := scan.2,
        ledger := some m.ledger } := by
  obtain ⟨replayed, scan, orders, scanned, fills, mirror⟩ := faithful.passes
  refine ⟨replayed, scan, orders, scanned, mirror, restore_session_ok broker scanned orders ?_⟩
  have opened : ({ cashKrw := 0, costs, positions := (Ledger.ofHoldings costs holdings).positions } :
      Ledger) = Ledger.ofHoldings costs holdings := rfl
  simp only [replayLedger, faithful.first, snapshot_ledger valid costs, bind, Except.bind, opened, fills]
  rfl

/-- Without a snapshot the ledger is not replayed. -/
theorem Faithful.restores_orders (broker : m.mode ≠ .paper)
    (faithful : Faithful terms none opening m) :
    ∃ replayed, ∃ scan : Nat × List Timestamp, Mirror terms replayed m.orders ∧
      restoreSession m.journal m.mode costs = .ok {
        orders := replayed.mapValues readPending, nextSeq := scan.1, submitTimes := scan.2,
        ledger := none } := by
  obtain ⟨replayed, scan, orders, scanned, -, mirror⟩ := faithful.passes
  refine ⟨replayed, scan, mirror, restore_session_ok broker scanned orders ?_⟩
  simp only [replayLedger, faithful.first]

end Restore

/-- A session about to run: nothing on the books, and at most its own opening
record in the journal. A broker-backed session trades on the holdings of that
record. -/
structure Fresh (m : OrderManager) : Prop where
  empty : m.orders = ∅
  journal : m.journal = [] ∨ ∃ at_ holdings count,
    m.journal = [⟨at_, m.mode, .sessionStart (some holdings) count⟩] ∧
      (m.mode = .paper ∨ ValidSnapshot holdings ∧ m.ledger = Ledger.ofHoldings m.costs holdings)

theorem fresh_faithful (terms : Terms) (fresh : Fresh m) :
    Faithful terms (firstHoldings m.journal) m.ledger m := by
  have opening : ∀ record ∈ m.journal, record.mode = m.mode ∧
      ∃ holdings count, record.event = .sessionStart (some holdings) count := by
    intro record member
    rcases fresh.journal with none | ⟨at_, holdings, count, shape, -⟩
    · simp [none] at member
    · rw [shape] at member
      rw [List.mem_singleton.mp member]
      exact ⟨rfl, holdings, count, rfl⟩
  have replayed : m.journal.foldlM replayStep (∅, m.ledger) = .ok (∅, m.ledger) := by
    rcases fresh.journal with none | ⟨at_, holdings, count, shape, -⟩
    · rw [none]
      rfl
    · rw [shape]
      rfl
  refine ⟨filed_of_empty fresh.empty, fun record member => (opening record member).1, ?_, ?_, rfl,
    ∅, replayed, by rw [fresh.empty]; exact Mirror.empty terms⟩
  · intro record member id named
    obtain ⟨-, holdings, count, event⟩ := opening record member
    rw [event] at named
    cases named
  · intro id order found
    rw [fresh.empty] at found
    cases found

theorem run_config (m : OrderManager) (ops : List Op) :
    (m.run ops).mode = m.mode ∧ (m.run ops).costs = m.costs := by
  refine run_invariant (fun now => now.mode = m.mode ∧ now.costs = m.costs) ?_ ⟨rfl, rfl⟩ ops
  rintro start op now after action ⟨mode, costs⟩
  obtain ⟨same_mode, same_costs⟩ := action_config action
  exact ⟨same_mode.trans mode, same_costs.trans costs⟩

/-- The manager's own journal restores: over any run of a day in which a row
that repeats an order's quantity repeats its amount, recovery accepts the
journal, and every order it restores has the live order's cumulative fill. -/
theorem own_journal_restores (m : OrderManager) (fresh : Fresh m) (ops : List Op) (day : Int)
    (keeps : Along step RowsKeepAmount m ops)
    (today : ∀ record ∈ (m.run ops).journal, dayOf record.ts = day) :
    ∃ session, restoreSession (readDay (m.run ops).journal m.mode day) m.mode m.costs = .ok session ∧
      ∀ id copy, session.orders.get? id = some copy → ∃ order,
        (m.run ops).orders.get? id = some order ∧ copy.filledQty = order.filledQty ∧
          copy.filledAmountKrw = order.filledAmountKrw := by
  let terms : Terms := ⟨True, False, False⟩
  have faithful : Faithful terms (firstHoldings m.journal) m.ledger (m.run ops) := by
    refine foldl_preserves (Faithful terms (firstHoldings m.journal) m.ledger) ?_ keeps
      (fresh_faithful terms fresh)
    intro now op kept so_far
    exact actions_preserve _ (fun _ _ action at_ => action_faithful trivial action
      ⟨fun _ => kept, False.elim, False.elim⟩ at_) (step_actions now op) so_far
  have mode := (run_config m ops).1
  have whole : readDay (m.run ops).journal m.mode day = (m.run ops).journal :=
    read_day_all fun record member => ⟨today record member,
      (faithful.modes record member).trans mode⟩
  have cumulative : ∀ {replayed : Dict String Order}, Mirror terms replayed (m.run ops).orders →
      ∀ id copy, (replayed.mapValues readPending).get? id = some copy → ∃ order,
        (m.run ops).orders.get? id = some order ∧ copy.filledQty = order.filledQty ∧
          copy.filledAmountKrw = order.filledAmountKrw := by
    intro replayed mirror id copy found
    rw [Dict.get?_mapValues] at found
    obtain ⟨written, held, rfl⟩ := Option.map_eq_some_iff.mp found
    obtain ⟨order, present, twin⟩ := mirror.twin held
    exact ⟨order, present, twin.filled, twin.amount trivial⟩
  rw [whole]
  by_cases paper : m.mode = .paper
  · -- A paper session restores its counters only.
    obtain ⟨replayed, scan, -, scanned, -⟩ := faithful.passes
    refine ⟨{ orders := ∅, nextSeq := scan.1, submitTimes := scan.2, ledger := none }, ?_, by simp⟩
    unfold restoreSession
    rw [scanned, paper]
    rfl
  · rw [← mode]
    have broker : (m.run ops).mode ≠ .paper := by rwa [mode]
    rcases fresh.journal with none | ⟨at_, holdings, count, shape, snapshot⟩
    · rw [none] at faithful
      obtain ⟨replayed, scan, mirror, restored⟩ := faithful.restores_orders broker
      exact ⟨_, restored, cumulative mirror⟩
    · obtain ⟨valid, ledger⟩ := snapshot.resolve_left paper
      rw [shape, ledger] at faithful
      obtain ⟨replayed, scan, -, -, mirror, restored⟩ := faithful.restores broker valid
      exact ⟨_, restored, cumulative mirror⟩

/-- A purchase filled in two steps, restored. -/
theorem own_journal_restores_two_fills :
    ∃ session, restoreSession (readDay ((Sample.opening []).run [
        .submit (Sample.order "005930" .buy 10) (Sample.accepted "1"),
        .reconcile (Sample.listing [Sample.row "1" "005930" .buy 10 4 400]),
        .reconcile (Sample.listing [Sample.row "1" "005930" .buy 10 6 610])]).journal .live 20707)
      .live Sample.free = .ok session := by
  obtain ⟨session, restored, -⟩ := own_journal_restores (Sample.opening [])
    ⟨rfl, .inr ⟨_, _, _, rfl, .inr ⟨⟨by decide, by decide⟩, rfl⟩⟩⟩ [
      .submit (Sample.order "005930" .buy 10) (Sample.accepted "1"),
      .reconcile (Sample.listing [Sample.row "1" "005930" .buy 10 4 400]),
      .reconcile (Sample.listing [Sample.row "1" "005930" .buy 10 6 610])] 20707
    ⟨by decide, by decide, by decide, trivial⟩ (by decide)
  exact ⟨session, restored⟩

/-- Ten won more at an unchanged quantity are taken over without a record; the
next fill is journaled against them, and recovery refuses the journal. -/
theorem corrected_amount_breaks_restore :
    restoreSession (readDay ((Sample.opening []).run [
        .submit (Sample.order "005930" .buy 10) (Sample.accepted "1"),
        .reconcile (Sample.listing [Sample.row "1" "005930" .buy 10 4 400]),
        .reconcile (Sample.listing [Sample.row "1" "005930" .buy 10 4 410]),
        .reconcile (Sample.listing [Sample.row "1" "005930" .buy 10 6 610])]).journal .live 20707)
      .live Sample.free = .error (.execution .inconsistentFill) := by
  rfl

/-! ### Faithful through restarts -/

/-- A broker-backed session opened on the account's holdings. -/
structure LiveOpening (holdings : List Holding) (m : OrderManager) : Prop where
  broker : m.mode ≠ .paper
  empty : m.orders = ∅
  journal : ∃ at_ count, m.journal = [⟨at_, m.mode, .sessionStart (some holdings) count⟩]
  valid : ValidSnapshot holdings
  ledger : m.ledger = Ledger.ofHoldings m.costs holdings

/-- A broker-backed manager whose journal, from its first snapshot on, is faithful. -/
structure FaithfulDay (terms : Terms) (holdings : List Holding) (costs : CostModel)
    (m : OrderManager) : Prop where
  broker : m.mode ≠ .paper
  priced : m.costs = costs
  faithful : Faithful terms (some (some holdings)) (Ledger.ofHoldings costs holdings) m

theorem opening_faithful (terms : Terms)
    (opening : LiveOpening holdings m) : FaithfulDay terms holdings m.costs m := by
  obtain ⟨at_, count, shape⟩ := opening.journal
  have faithful := fresh_faithful terms
    ⟨opening.empty, .inr ⟨at_, holdings, count, shape, .inr ⟨opening.valid, opening.ledger⟩⟩⟩
  refine ⟨opening.broker, rfl, ?_⟩
  have first : firstHoldings m.journal = some (some holdings) := by
    rw [shape]
    rfl
  rw [first, opening.ledger] at faithful
  exact faithful

theorem Faithful.shadowed (faithful : Faithful terms snapshot opening m) : Shadowed terms m := by
  refine ⟨faithful.filed, faithful.modes, fun replayed accepted => ?_⟩
  obtain ⟨other, -, orders, -, -, mirror⟩ := faithful.passes
  rw [orders] at accepted
  cases accepted
  exact mirror

variable {costs : CostModel}

theorem actions_faithful (fair : terms.fair) (chain : Actions start op m after)
    (meets : terms.Meets start op) (day : FaithfulDay terms holdings costs m) :
    FaithfulDay terms holdings costs after := by
  refine actions_preserve (FaithfulDay terms holdings costs) ?_ chain day
  intro now later action so_far
  obtain ⟨mode, same⟩ := action_config action
  exact ⟨mode ▸ so_far.broker, same.trans so_far.priced,
    action_faithful fair action meets so_far.faithful⟩

section

variable (valid : ValidSnapshot holdings) (faithful : FaithfulDay terms holdings costs mid)
  (today : ∀ record ∈ mid.journal, dayOf record.ts = day)
include valid faithful today

/-- A restored manager is the one that died, as far as the journal tells, and
its journal is faithful to it. -/
theorem resume_faithful {limits : RiskLimits}
    (resumed : resume mid.journal mid.mode limits costs day current = .ok next) :
    FaithfulDay terms holdings costs next ∧ next.ledger = mid.ledger := by
  obtain ⟨replayed, restored⟩ :=
    resume_restored faithful.faithful.shadowed faithful.broker today resumed
  obtain ⟨again, scan, read, scanned, -, session⟩ := faithful.faithful.restores faithful.broker valid
  rw [restored.read] at read
  cases read
  have whole : readDay mid.journal mid.mode day = mid.journal :=
    read_day_all fun record member => ⟨today record member, faithful.faithful.modes record member⟩
  simp only [resume, openSession, whole, session, bind] at resumed
  cases resumed
  refine ⟨⟨faithful.broker, rfl, restored.filed, faithful.faithful.modes,
    (scan_numbered scanned).2, ?_, faithful.faithful.first, replayed, ?_, mirror_pending terms replayed⟩,
    rfl⟩
  · intro id order found
    rw [Dict.get?_mapValues] at found
    obtain ⟨copy, held, -⟩ := Option.map_eq_some_iff.mp found
    rcases replay_origin restored.read held with ⟨before, none⟩ | ⟨record, member, intent, ref, event⟩
    · cases none
    · exact ⟨record, member, by rw [event]; rfl⟩
  · obtain ⟨other, replays, -⟩ := faithful.faithful.replays
    have orders := (replay_step_split replays (same_intents_pending other)).1
    rw [restored.read] at orders
    cases orders
    exact replays

/-- A faithful journal restores, to what it replays to and the ledger of the
manager that wrote it. -/
theorem resume_succeeds (limits : RiskLimits) (current : List Holding) :
    ∃ next replayed, resume mid.journal mid.mode limits costs day current = .ok next ∧
      next.closed = false ∧ next.ledger = mid.ledger ∧
      next.orders = replayed.mapValues readPending ∧ Mirror terms replayed mid.orders ∧
      mid.journal.foldlM replayRecord ∅ = .ok replayed := by
  obtain ⟨replayed, scan, read, -, mirror, session⟩ := faithful.faithful.restores faithful.broker valid
  have whole : readDay mid.journal mid.mode day = mid.journal :=
    read_day_all fun record member => ⟨today record member, faithful.faithful.modes record member⟩
  have resumed : resume mid.journal mid.mode limits costs day current = .ok {
      mode := mid.mode, limits, costs, ledger := mid.ledger
      orders := replayed.mapValues readPending, seq := scan.1, submitTimes := scan.2
      journal := mid.journal } := by
    simp only [resume, openSession, whole, session, bind]
    rfl
  exact ⟨_, replayed, resumed, rfl, rfl, rfl, mirror, read⟩

end

theorem advance_faithful {Meets : OrderManager → Op → Prop} (fair : terms.fair)
    (enough : ∀ m op, Meets m op → terms.Meets m op) (valid : ValidSnapshot holdings)
    (meets : WithinDay day Meets m move)
    (moved : advance day m move = .ok next) (faithful : FaithfulDay terms holdings costs m) :
    FaithfulDay terms holdings costs next := by
  cases move with
  | op op =>
    cases moved
    exact actions_faithful fair (step_actions m op) (enough m op meets) faithful
  | restart during appends limits current =>
    obtain ⟨conditions, -, today⟩ := meets
    obtain ⟨mid, chain, mode, journal⟩ := cut_reached m during appends
    have reached := actions_faithful fair chain (enough m during conditions) faithful
    simp only [advance, ← journal, ← mode, faithful.priced] at moved
    exact (resume_faithful valid reached (journal ▸ today) moved).1
  | announce at_ event opens =>
    cases moved
    obtain ⟨broker, same, filed, modes, numbered, recorded, first, replayed, replays, mirror⟩ := faithful
    refine ⟨broker, same, ⟨filed.named, filed.drawn⟩, record_modes modes, ?_, ?_, ?_, replayed, ?_,
      mirror⟩
    · refine List.forall_mem_append.mpr ⟨numbered, List.forall_mem_singleton.mpr fun id named => ?_⟩
      have quiet : event.numberedId? = none := by cases event <;> first | rfl | cases opens
      cases quiet.symm.trans named
    · intro id order found
      obtain ⟨record, member, named⟩ := recorded id order found
      exact ⟨record, List.mem_append_left _ member, named⟩
    · simp only [OrderManager.record, first_holdings_append, first]
      rfl
    · simp only [OrderManager.record, List.foldlM_append, replays]
      cases event <;> first | rfl | cases opens

/-- Every day opened on the account's holdings stays faithful, restarts included. -/
theorem travel_faithful {condition : OrderManager → Op → Prop}
    (fair : terms.fair) (opening : LiveOpening holdings m)
    (enough : ∀ now op, condition now op → terms.Meets now op)
    (meets : AlongMoves day (WithinDay day condition) m moves)
    (went : travel day m moves = .ok last) : FaithfulDay terms holdings m.costs last := by
  refine travel_preserves (FaithfulDay terms holdings m.costs) ?_ meets went
    (opening_faithful terms opening)
  intro now move next allowed moved so_far
  exact advance_faithful fair enough opening.valid allowed moved so_far

/-- An id on record outside a refusal is numbered there. -/
theorem numbered_of_sent {event : Event} {id : String}
    (numbered : event.numberedId? = some id)
    (accepted : ∀ intent code detail, event ≠ .riskReject id intent code detail) :
    event.clientId? = some id ∧ event.refusal = false := by
  cases event <;> simp_all [Event.numberedId?, Event.clientId?, Event.refusal]

/-- An order on the books that was not refused has a copy in any replay of the journal. -/
theorem Faithful.copied {terms : Terms} {first : Option (Option (List Holding))}
    (faithful : Faithful terms first opening m) {records : List Record}
    (read : records.foldlM replayRecord ∅ = .ok replayed)
    (inside : ∀ record ∈ m.journal, record ∈ records) {id : String}
    (found : m.orders.get? id = some order) (sent : ∀ record ∈ m.journal,
      ∀ intent code detail, record.event ≠ .riskReject id intent code detail) :
    ∃ copy, replayed.get? id = some copy := by
  obtain ⟨record, member, numbered⟩ := faithful.recorded id order found
  obtain ⟨named, kept⟩ := numbered_of_sent numbered (sent record member)
  exact (replay_keeps read).2 record (inside record member) id named kept

private theorem next_seq_covers {records : List Record}
    (read : records.foldlM replayRecord ∅ = .ok replayed)
    (scanned : records.foldlM scanRecord (0, []) = .ok scan) {record : Record}
    (member : record ∈ records) {id : String} {seq : Nat} (named : record.event.clientId? = some id)
    (number : seqOf id = .ok seq) : seq ≤ scan.1 := by
  have counted : ∀ {other : Record}, other ∈ records → other.event.numberedId? = some id →
      seq ≤ scan.1 := by
    intro other inside numbered
    obtain ⟨same, bound, again⟩ := (scan_numbered scanned).2 other inside id numbered
    rw [number] at again
    cases again
    exact bound
  by_cases refused : record.event.refusal = true
  · apply counted member
    rw [refusal_numbered refused, named]
  · obtain ⟨order, held⟩ := (replay_keeps read).2 _ member _ named (by simpa using refused)
    rcases replay_origin read held with ⟨before, none⟩ | ⟨other, inside, intent, ref, event⟩
    · cases none
    · exact counted inside (by rw [event]; rfl)

/-- Journal replay equals the live state. Between any two operations of a
broker-backed day, restarts included, the journal restores to the live orders,
refused intents apart, and to the live ledger, and its next sequence number is
past every id on record. -/
theorem replay_equals_live (day : Int) (holdings : List Holding) (m last : OrderManager)
    (moves : List Move) (opening : LiveOpening holdings m)
    (meets : AlongMoves day
      (WithinDay day fun now op => RowsKeepAmount now op ∧ HonestOutcome op) m moves)
    (went : travel day m moves = .ok last)
    (today : ∀ record ∈ last.journal, dayOf record.ts = day) :
    ∃ session ledger,
      restoreSession (readDay last.journal last.mode day) last.mode last.costs = .ok session ∧
      (∀ id order, last.orders.get? id = some order →
        (∀ record ∈ last.journal, ∀ intent code detail,
          record.event ≠ .riskReject id intent code detail) →
        ∃ copy, session.orders.get? id = some copy ∧ copy.intent = order.intent ∧
          copy.brokerOrderNo = order.brokerOrderNo ∧ copy.brokerOrgNo = order.brokerOrgNo ∧
          copy.filledQty = order.filledQty ∧ copy.filledAmountKrw = order.filledAmountKrw ∧
          copy.status = shownStatus order.status) ∧
      session.ledger = some ledger ∧ ledger.positions = last.ledger.positions ∧
      ledger.realizedPnlKrw = last.ledger.realizedPnlKrw ∧
      ∀ record ∈ last.journal, ∀ id seq, record.event.clientId? = some id → seqOf id = .ok seq →
        seq ≤ session.nextSeq := by
  let terms : Terms := ⟨True, True, False⟩
  have faithful : FaithfulDay terms holdings m.costs last :=
    travel_faithful trivial opening
      (fun _ _ said => ⟨fun _ => said.1, fun _ => said.2, False.elim⟩) meets went
  have whole : readDay last.journal last.mode day = last.journal :=
    read_day_all fun record member => ⟨today record member, faithful.faithful.modes record member⟩
  obtain ⟨replayed, scan, read, scanned, mirror, session⟩ :=
    faithful.faithful.restores faithful.broker opening.valid
  rw [whole, faithful.priced]
  refine ⟨_, last.ledger, session, ?_, rfl, rfl, rfl, fun record member id seq named number =>
    next_seq_covers read scanned member named number⟩
  intro id order found sent
  obtain ⟨copy, held⟩ := faithful.faithful.copied read (fun _ member => member) found sent
  obtain ⟨live, present, twin⟩ := mirror.twin held
  rw [found] at present
  cases present
  obtain ⟨number, org⟩ := twin.numbers trivial
  refine ⟨readPending copy, ?_, twin.intent, number, org, twin.filled, twin.amount trivial,
    twin.status⟩
  rw [Dict.get?_mapValues, held]
  rfl

/-- A purchase filled in part, a restart and the rest of the fill: the journal
restores to the ledger of the manager that wrote it. -/
theorem replay_equals_live_restarted :
    ∃ last session ledger, travel 20707 (Sample.opening []) [
        .op (.submit (Sample.order "005930" .buy 10) (Sample.accepted "1")),
        .op (.reconcile (Sample.listing [Sample.row "1" "005930" .buy 10 4 400])),
        .restart .close 0 Sample.limits [],
        .op (.reconcile (Sample.listing [Sample.row "1" "005930" .buy 10 10 1000]))] = .ok last ∧
      restoreSession (readDay last.journal last.mode 20707) last.mode last.costs = .ok session ∧
      session.ledger = some ledger ∧ ledger.positions = last.ledger.positions := by
  have bought : HonestOutcome (.submit (Sample.order "005930" .buy 10) (Sample.accepted "1")) := by
    intro intent env order quote outcome same replied unaccepted
    cases same
    cases replied
    exact absurd rfl unaccepted
  have listed : ∀ env, HonestOutcome (.reconcile env) := fun env => honest_elsewhere (by simp)
  have closed : HonestOutcome .close := honest_elsewhere (by simp)
  have meets : AlongMoves 20707
      (WithinDay 20707 fun now op => RowsKeepAmount now op ∧ HonestOutcome op) (Sample.opening []) [
        .op (.submit (Sample.order "005930" .buy 10) (Sample.accepted "1")),
        .op (.reconcile (Sample.listing [Sample.row "1" "005930" .buy 10 4 400])),
        .restart .close 0 Sample.limits [],
        .op (.reconcile (Sample.listing [Sample.row "1" "005930" .buy 10 10 1000]))] := by
    refine ⟨⟨by decide, bought⟩, fun _ same => ?_⟩
    cases same
    refine ⟨⟨by decide, listed _⟩, fun _ same => ?_⟩
    cases same
    refine ⟨⟨⟨by decide, closed⟩, by decide, by decide⟩, fun _ same => ?_⟩
    cases same
    exact ⟨⟨by decide, listed _⟩, fun _ _ => trivial⟩
  obtain ⟨session, ledger, restored, -, kept, positions, -⟩ := replay_equals_live 20707 []
    (Sample.opening []) _ _ ⟨by decide, rfl, ⟨_, _, rfl⟩, ⟨by decide, by decide⟩, rfl⟩ meets rfl
    (by decide)
  exact ⟨_, session, ledger, rfl, restored, kept, positions⟩

end KrxAlpha
