import KrxAlpha.OrderDesk

/-! Client ids over a day. A submission draws the next number before anything can go
wrong with it, and a restore starts from the highest number on record, so a number whose
intent or rejection reached the journal is never drawn again. -/
namespace KrxAlpha
open List
open OrderManager

/-- The records that carry a drawn number. -/
def numberedRecords (journal : List Record) : List Record :=
  journal.filter (·.event.numberedId?.isSome)

/-- The client ids of one mode's intents and rejections on record, in order. -/
def journaledIds (mode : ExecutionMode) (journal : List Record) : List String :=
  (numberedRecords journal).filterMap fun record =>
    if record.mode = mode then record.event.numberedId? else none

theorem numbered_append (front back : List Record) :
    numberedRecords (front ++ back) = numberedRecords front ++ numberedRecords back :=
  filter_append ..

/-- Records without a number add nothing. -/
theorem numbered_quiet (quiet : numberedRecords back = []) :
    numberedRecords (front ++ back) = numberedRecords front := by
  rw [numbered_append, quiet, append_nil]

theorem stamp_quiet (plain : ∀ event ∈ events, event.numberedId? = none)
    (mode : ExecutionMode) (clock : Nat → Timestamp) :
    numberedRecords (stamp mode clock events) = [] := by
  induction events generalizing clock with
  | nil => rfl
  | cons event rest ih =>
    have here : event.numberedId?.isSome = false := by simp [plain event mem_cons_self]
    simp only [stamp, numberedRecords, filter_cons, here, Bool.false_eq_true, if_false]
    exact ih (fun other member => plain other (mem_cons_of_mem _ member)) _

private theorem record_quiet {mode : ExecutionMode}
    (plain : event.numberedId? = none) : numberedRecords [⟨at_, mode, event⟩] = [] := by
  simp [numberedRecords, plain]

private theorem gateway_quiet (mode : ExecutionMode) (id : String)
    (written : List (Timestamp × GatewayEvent)) :
    numberedRecords (gatewayRecords mode id written) = [] :=
  filter_eq_nil_iff.mpr fun record member => by
    obtain ⟨line, -, rfl⟩ := mem_map.mp member
    simp [Event.numberedId?]

/-! ### What draws a number -/

/-- What a submission meets. -/
def Op.submitEnv? : Op → Option SubmitEnv
  | .submit _ env => some env
  | _ => none

/-- Everything an action can do to the counter, the numbered records and the noted sends. -/
inductive Counts (op : Op) (m after : OrderManager) : Prop where
  | quiet (grows : m.seq ≤ after.seq) (noted : after.submitTimes = m.submitTimes)
      (records : numberedRecords after.journal = numberedRecords m.journal)
  | refused (intent : OrderIntent) (env : SubmitEnv) (code : RejectCode) (detail : String)
      (asked : op.submitEnv? = some env) (seq : after.seq = m.seq + 1)
      (noted : after.submitTimes = m.submitTimes)
      (records : numberedRecords after.journal = numberedRecords m.journal ++
        [⟨env.clock.journaledAt, m.mode, .riskReject (m.nextId env) intent code detail⟩])
  | sent (intent : OrderIntent) (env : SubmitEnv) (quote : Quote) (ref : Int)
      (asked : op.submitEnv? = some env) (passed : m.riskGate intent quote env = .ok ref)
      (seq : after.seq = m.seq + 1)
      (noted : after.submitTimes = m.submitTimes ++ [env.clock.submittedAt])
      (records : numberedRecords after.journal = numberedRecords m.journal ++
        [⟨env.clock.journaledAt, m.mode, .intent (m.nextId env) intent ref⟩])

private theorem inert_plain {event : Event} (inert : event.inert) : event.numberedId? = none := by
  cases event <;> first | rfl | cases inert

theorem action_counts {start m after : OrderManager} {op : Op} (action : Action start op m after) :
    Counts op m after := by
  cases action with
  | clerical seq reason closed grows => exact .quiet grows rfl rfl
  | note id order at_ event inert =>
    exact .quiet le_rfl rfl (numbered_quiet (record_quiet (inert_plain inert)))
  | reject intent env code detail asked =>
    exact .refused intent env code detail (by rw [asked]; rfl) rfl rfl (numbered_append _ _)
  | register intent env quote ref asked quoted passed =>
    exact .sent intent env quote ref (by rw [asked]; rfl) passed rfl rfl (numbered_append _ _)
  | settle => exact .quiet le_rfl rfl (numbered_quiet (record_quiet rfl))
  | adopt => exact .quiet le_rfl rfl (numbered_quiet (record_quiet rfl))
  | take id before order row paid fills clock source adopts found live listed low high took =>
    exact .quiet le_rfl rfl (numbered_quiet (by cases took <;> rfl))
  | restate id order row status records clock found live listed level read moved restates =>
    exact .quiet le_rfl rfl (numbered_quiet (by cases restates <;> rfl))
  | retire => exact .quiet le_rfl rfl (numbered_quiet (record_quiet rfl))

/-- The same of the numbers alone: nothing is recorded, or the next number is drawn and
recorded. -/
inductive Numbering (Asked : SubmitEnv → Prop) (m after : OrderManager) : Prop where
  | kept (grows : m.seq ≤ after.seq)
      (records : numberedRecords after.journal = numberedRecords m.journal)
  | drawn (env : SubmitEnv) (asked : Asked env) (event : Event)
      (id : event.numberedId? = some (m.nextId env)) (seq : after.seq = m.seq + 1)
      (records : numberedRecords after.journal =
        numberedRecords m.journal ++ [⟨env.clock.journaledAt, m.mode, event⟩])

theorem action_numbering (action : Action start op m later) :
    Numbering (op.submitEnv? = some ·) m later := by
  cases action_counts action with
  | quiet grows noted records => exact .kept grows records
  | refused intent env code detail asked seq noted records =>
    exact .drawn env asked _ rfl seq records
  | sent intent env quote ref asked passed seq noted records =>
    exact .drawn env asked _ rfl seq records

theorem submit_failing_numbering (m : OrderManager) (intent : OrderIntent) (env : SubmitEnv)
    (fault : SubmitFault) :
    (m.submitFailing intent env fault).mode = m.mode ∧
      Numbering (· = env) m (m.submitFailing intent env fault) := by
  unfold submitFailing
  split
  · exact ⟨rfl, .kept le_rfl rfl⟩
  · split
    · exact ⟨rfl, .kept le_rfl rfl⟩
    · rename_i quote quoted
      simp only
      split
      · split
        · exact ⟨rfl, .kept (Nat.le_succ _) rfl⟩
        · exact ⟨rfl, .drawn env rfl _ rfl rfl (numbered_append _ _)⟩
      · exact ⟨rfl, .kept (Nat.le_succ _) rfl⟩
      · rename_i ref passed
        split
        · rename_i landed
          cases landed with
          | false => exact ⟨rfl, .kept (Nat.le_succ _) rfl⟩
          | true => exact ⟨rfl, .drawn env rfl _ rfl rfl (numbered_append _ _)⟩
        · rename_i landed
          -- Whatever follows the intent's record carries no number of its own.
          have behind : ∀ more, numberedRecords more = [] →
              numberedRecords ((m.journal ++ [⟨env.clock.journaledAt, m.mode,
                .intent (m.nextId env) intent ref⟩] ++
                gatewayRecords m.mode (m.nextId env) (env.gateway
                  (pendingOrder (m.nextId env) intent env) quote).written) ++ more) =
              numberedRecords m.journal ++
                [⟨env.clock.journaledAt, m.mode, .intent (m.nextId env) intent ref⟩] := by
            intro more quiet
            rw [numbered_quiet quiet, numbered_quiet (gateway_quiet _ _ _)]
            exact numbered_append _ _
          have plain := behind [] rfl
          rw [append_nil] at plain
          split
          · exact ⟨rfl, .drawn env rfl _ rfl rfl plain⟩
          · split
            · exact ⟨rfl, .drawn env rfl _ rfl rfl plain⟩
            · cases landed with
              | false => exact ⟨rfl, .drawn env rfl _ rfl rfl plain⟩
              | true => exact ⟨rfl, .drawn env rfl _ rfl rfl (behind _ (record_quiet rfl))⟩

private theorem adopt_order_on_plain (statuses : List BrokerOrderStatus) (state : List String × Nat)
    (order : Order) : ∀ event ∈ (adoptOrderOn statuses state order).emitted,
      event.numberedId? = none := by
  obtain ⟨known, left⟩ := state
  intro event written
  have whole := OnJournal.written_of (adopt_order_on statuses left order known) written
  have visited := adopt_order_step statuses known order
  generalize adoptOrder statuses known order = visit at visited whole
  cases visited with
  | idle => cases whole
  | ambiguous => rw [mem_singleton.mp whole]; rfl
  | adopted => rw [mem_singleton.mp whole]; rfl

private theorem apply_order_on_plain (statuses : List BrokerOrderStatus) (state : Ledger × Nat)
    (order : Order) : ∀ event ∈ (applyOrderOn statuses state order).emitted,
      event.numberedId? = none := by
  obtain ⟨ledger, left⟩ := state
  intro event written
  have whole := OnJournal.written_of (apply_order_on statuses left order ledger) written
  have visited := apply_order_step statuses ledger order
  generalize applyOrder statuses ledger order = visit at visited whole
  have fill : ∀ {paid : Ledger} {row : BrokerOrderStatus} {fills : List Event},
      TakesFill ledger order row paid fills → event ∈ fills → event.numberedId? = none := by
    intro paid row fills took member
    cases took with
    | same => cases member
    | more => rw [mem_singleton.mp member]; rfl
  cases visited with
  | idle => cases whole
  | refused live row found events err cause =>
    cases cause with
    | moved => rw [mem_singleton.mp whole]; rfl
    | unreadable => cases whole
    | unpaid => cases whole
  | stuck live row found low high status read paid fills took => exact fill took whole
  | taken live row found low high status read paid fills took =>
    rcases mem_append.mp whole with early | late
    · exact fill took early
    · unfold statusRecords at late
      split at late
      · rw [mem_singleton.mp late]; rfl
      · cases late

private theorem swept_plain (visit : σ → Order → Visit σ Order Event ε)
    (plain : ∀ state order, ∀ event ∈ (visit state order).emitted, event.numberedId? = none)
    (orders : Dict String Order) (state : σ) :
    ∀ event ∈ (orders.sweep visit state).emitted, event.numberedId? = none := by
  have swept : ∀ event ∈ [] ++ (orders.sweep visit state).emitted, event.numberedId? = none := by
    apply Dict.sweep_invariant fun _ _ (out : List Event) =>
      ∀ event ∈ out, Event.numberedId? event = none
    · intro state _ out _ order _ _ so_far event member
      exact (mem_append.mp member).elim (so_far event) (plain state order event)
    · exact fun _ none => by cases none
  simpa using swept

/-- A reconciliation writes no numbered record, however far it comes. -/
theorem reconcile_on_quiet (m : OrderManager) (env : ReconcileEnv) (left : Nat) :
    (m.reconcileOn env left).1.mode = m.mode ∧ (m.reconcileOn env left).1.seq = m.seq ∧
      numberedRecords (m.reconcileOn env left).1.journal = numberedRecords m.journal := by
  unfold reconcileOn
  split
  · exact ⟨rfl, rfl, rfl⟩
  · split
    · exact ⟨rfl, rfl, rfl⟩
    · rename_i statuses fetched
      have adopted := swept_plain (adoptOrderOn statuses) (adopt_order_on_plain statuses) m.orders
        (knownNumbers m.orders, left)
      simp only
      split
      · exact ⟨rfl, rfl, numbered_quiet (stamp_quiet adopted _ _)⟩
      · have applied := swept_plain (applyOrderOn statuses) (apply_order_on_plain statuses)
          (m.orders.sweep (adoptOrderOn statuses) (knownNumbers m.orders, left)).items
          (m.ledger, (m.orders.sweep (adoptOrderOn statuses) (knownNumbers m.orders, left)).state.2)
        have both : numberedRecords (stamp m.mode env.clock (_ ++ _)) = [] :=
          stamp_quiet (fun event member => (mem_append.mp member).elim (adopted event) (applied event)) _ _
        split <;> exact ⟨rfl, rfl, numbered_quiet both⟩

/-- An operation that submits nothing draws nothing. -/
theorem actions_quiet (other : op.submitEnv? = none) (chain : Actions start op m later) :
    later.mode = m.mode ∧ m.seq ≤ later.seq ∧
      numberedRecords later.journal = numberedRecords m.journal := by
  refine ⟨(actions_cut chain).1, ?_⟩
  induction chain with
  | refl => exact ⟨le_rfl, rfl⟩
  | tail front action ih =>
    cases action_numbering action with
    | kept grows records => exact ⟨ih.1.trans grows, records.trans ih.2⟩
    | drawn env asked =>
      rw [other] at asked
      cases asked

theorem resolve_failing_quiet (m : OrderManager) (clientId reason : String) (env : ReconcileEnv)
    (recordedAt : Timestamp) :
    (m.resolveFailing clientId reason env recordedAt).mode = m.mode ∧
      m.seq ≤ (m.resolveFailing clientId reason env recordedAt).seq ∧
      numberedRecords (m.resolveFailing clientId reason env recordedAt).journal =
        numberedRecords m.journal := by
  have resolved := actions_quiet rfl (resolve_unknown_actions m clientId reason env recordedAt)
  have reconciled := actions_quiet rfl (reconcile_actions m (.reconcile env) env rfl)
  unfold resolveFailing
  split
  · rename_i after order returned
    rw [returned] at resolved
    exact ⟨resolved.1, resolved.2.1, reconciled.2.2⟩
  · rename_i after err raised
    rw [raised] at resolved
    exact resolved

/-- What the builder writes down carries no number. -/
theorem announce_quiet (m : OrderManager) (at_ : Timestamp) (opens : event.opens) :
    numberedRecords (m.record at_ event).journal = numberedRecords m.journal := by
  have plain : event.numberedId? = none := by cases event <;> first | rfl | cases opens
  exact numbered_quiet (record_quiet plain)

/-! ### No number twice -/

/-- Every mode's ids on record are distinct, and stand in the file the day's restores read. -/
structure IdsOnce (day : Int) (journal : List Record) : Prop where
  distinct : ∀ mode, (journaledIds mode journal).Nodup
  today : ∀ record ∈ numberedRecords journal, dayOf record.ts = day

/-- The running session has drawn every number of its mode on record. -/
structure IdsDrawn (day : Int) (m : OrderManager) : Prop where
  once : IdsOnce day m.journal
  drawn : ∀ id ∈ journaledIds m.mode m.journal, ∃ seq ≤ m.seq, seqOf id = .ok seq

theorem IdsDrawn.next {Asked : SubmitEnv → Prop}
    (ids : IdsDrawn day m) (mode : later.mode = m.mode) (numbering : Numbering Asked m later)
    (today : ∀ env, Asked env → dayOf env.clock.journaledAt = day) : IdsDrawn day later := by
  cases numbering with
  | kept grows records =>
    have same : ∀ mode, journaledIds mode later.journal = journaledIds mode m.journal :=
      fun mode => by rw [journaledIds, records, journaledIds]
    refine ⟨⟨fun mode => same mode ▸ ids.once.distinct mode, records ▸ ids.once.today⟩, ?_⟩
    intro id member
    rw [mode, same] at member
    obtain ⟨seq, bound, read⟩ := ids.drawn id member
    exact ⟨seq, bound.trans grows, read⟩
  | drawn env asked event id seq records =>
    have here : journaledIds m.mode later.journal =
        journaledIds m.mode m.journal ++ [m.nextId env] := by
      simp [journaledIds, records, id]
    have elsewhere : ∀ mode, mode ≠ m.mode →
        journaledIds mode later.journal = journaledIds mode m.journal := by
      intro mode other
      simp [journaledIds, records, Ne.symm other]
    -- The drawn number is above every number on record, so its id is not among theirs.
    have fresh : m.nextId env ∉ journaledIds m.mode m.journal := by
      intro known
      obtain ⟨taken, bound, read⟩ := ids.drawn _ known
      rw [nextId, seq_of_client_id] at read
      cases read
      omega
    refine ⟨⟨fun mode => ?_, ?_⟩, ?_⟩
    · by_cases own : mode = m.mode
      · rw [own, here]
        exact (ids.once.distinct m.mode).append (nodup_singleton _) (by simpa using fresh)
      · rw [elsewhere mode own]
        exact ids.once.distinct mode
    · rw [records]
      exact forall_mem_append.mpr ⟨ids.once.today, forall_mem_singleton.mpr (today env asked)⟩
    · rw [mode, here]
      refine forall_mem_append.mpr ⟨fun other early => ?_, forall_mem_singleton.mpr ?_⟩
      · obtain ⟨taken, bound, read⟩ := ids.drawn other early
        exact ⟨taken, by omega, read⟩
      · exact ⟨m.seq + 1, seq.ge, seq_of_client_id ..⟩

theorem IdsDrawn.quiet (ids : IdsDrawn day m)
    (mode : later.mode = m.mode) (grows : m.seq ≤ later.seq)
    (records : numberedRecords later.journal = numberedRecords m.journal) : IdsDrawn day later :=
  have kept : Numbering (fun _ => False) m later := .kept grows records
  ids.next mode kept fun _ asked => asked.elim

/-- A restore starts above every number of its mode on record. -/
theorem open_session_drawn {journal : List Record} {mode : ExecutionMode}
    {limits : RiskLimits} {costs : CostModel} (once : IdsOnce day journal)
    (opened : openSession journal mode limits costs day opening = .ok m) : IdsDrawn day m := by
  obtain ⟨modeOf, -, journalOf, scanned⟩ := open_session_scan opened
  refine ⟨journalOf ▸ once, ?_⟩
  intro id member
  rw [modeOf, journalOf] at member
  obtain ⟨record, listed, named⟩ := mem_filterMap.mp member
  split at named
  · rename_i own
    have read : record ∈ readDay journal mode day := by
      refine mem_filter.mpr ⟨mem_of_mem_filter listed, ?_⟩
      simpa using ⟨once.today record listed, own⟩
    exact (scan_numbered scanned).2 record read id named
  · cases named

/-- What the submission of a step meets, whether it goes through, fails or dies midway. -/
def DeskStep.submitEnv? : DeskStep → Option SubmitEnv
  | .op inner => inner.submitEnv?
  | .die during _ => during.submitEnv?
  | .failSubmit _ env _ => some env
  | _ => none

/-- The step's intent or rejection, if it comes to one, is filed on the day. -/
def DeskStep.OnDay (day : Int) (step : DeskStep) : Prop :=
  ∀ env ∈ step.submitEnv?, dayOf env.clock.journaledAt = day

instance DeskStep.decidableOnDay (day : Int) (step : DeskStep) : Decidable (step.OnDay day) :=
  inferInstanceAs (Decidable (∀ env ∈ step.submitEnv?, dayOf env.clock.journaledAt = day))

theorem desk_ids (day : Int) {desk : Desk} {step : DeskStep}
    (today : step.OnDay day) (holds : desk.Holds (IdsDrawn day) (IdsOnce day)) :
    (desk.step day step).Holds (IdsDrawn day) (IdsOnce day) := by
  refine Desk.step_holds (fun m ids => ids.once) ?_ ?_ ?_ ?_ ?_ ?_ holds
  · rintro during kind start m after action ids
    refine ids.next (action_config action).1 (action_numbering action) fun env asked => ?_
    rcases kind with rfl | ⟨appends, rfl⟩ <;> exact today env asked
  · intro mode limits costs opening _ journal m once opened
    exact open_session_drawn once opened
  · intro at_ event _ opens m ids
    exact ids.quiet rfl le_rfl (announce_quiet m at_ opens)
  · rintro intent env fault rfl m ids
    obtain ⟨mode, numbering⟩ := submit_failing_numbering m intent env fault
    refine ids.next mode numbering ?_
    rintro other rfl
    exact today other rfl
  · intro env left _ m ids
    obtain ⟨mode, seq, records⟩ := reconcile_on_quiet m env left
    exact ids.quiet mode seq.ge records
  · intro clientId reason env recordedAt _ m ids
    obtain ⟨mode, grows, records⟩ := resolve_failing_quiet m clientId reason env recordedAt
    exact ids.quiet mode grows records

/-- Over every run of the day's sessions, no two intents or rejections of a mode on record
carry one client id. -/
theorem client_ids_once (day : Int) (steps : List DeskStep)
    (today : ∀ step ∈ steps, step.OnDay day) (mode : ExecutionMode) :
    (journaledIds mode ((Desk.idle []).run day steps).journal).Nodup := by
  have empty : IdsOnce day [] := ⟨fun _ => nodup_nil, by simp [numberedRecords]⟩
  have reached : ((Desk.idle []).run day steps).Holds (IdsDrawn day) (IdsOnce day) :=
    Desk.run_holds (fun _ _ allowed holds => desk_ids day allowed holds) today empty
  cases shape : (Desk.idle []).run day steps with
  | idle journal =>
    rw [shape] at reached
    exact reached.distinct mode
  | running m =>
    rw [shape] at reached
    exact reached.once.distinct mode

namespace Sample

def startLive : DeskStep := .start .live limits free { cashKrw := 0, costs := free }

/-- Two orders, the second cut off by a crash behind its intent, a third whose intent cannot
be appended, and after another restart a fourth. -/
def crashedDay : List DeskStep :=
  [startLive, .op (.submit (order "005930" .buy 10) (accepted "1")),
    .die (.submit (order "000660" .buy 10) (accepted "2")) 1, startLive,
    .failSubmit (order "035420" .buy 10) (accepted "3") (.intent false), .die .close 0, startLive,
    .op (.submit (order "035420" .buy 10) (accepted "3"))]

end Sample

theorem client_ids_once_crashed :
    journaledIds .live ((Desk.idle []).run 20707 Sample.crashedDay).journal =
        [Sample.id 1, Sample.id 2, Sample.id 3] ∧
      (journaledIds .live ((Desk.idle []).run 20707 Sample.crashedDay).journal).Nodup :=
  ⟨by decide +kernel, client_ids_once 20707 Sample.crashedDay (by decide +kernel) .live⟩

end KrxAlpha
