import KrxAlpha.ReconcileFaults

/-! The order processes of one data root over a day. They share one journal and one
session lock, so that at most one manager runs at a time; it is restored from the day's
records of its own mode. A process may die after any append of any operation, or go on
after an append that raised, whether or not the record had reached the file. -/
namespace KrxAlpha
open OrderManager

/-- The counters a process starts with are read off the day's records of its mode. -/
theorem open_session_scan {journal : List Record} {mode : ExecutionMode} {limits : RiskLimits}
    {costs : CostModel} (opened : openSession journal mode limits costs day opening = .ok m) :
    m.mode = mode ∧ m.limits = limits ∧ m.journal = journal ∧
      (readDay journal mode day).foldlM scanRecord (0, []) = .ok (m.seq, m.submitTimes) := by
  unfold openSession at opened
  obtain ⟨recovered, restored, done⟩ := bind_ok opened
  cases done
  refine ⟨rfl, rfl, rfl, ?_⟩
  unfold restoreSession at restored
  obtain ⟨scan, scanned, restored⟩ := bind_ok restored
  simp only at restored
  split at restored
  · cases restored
    exact scanned
  · obtain ⟨replayed, -, restored⟩ := bind_ok restored
    obtain ⟨ledger, -, done⟩ := bind_ok restored
    cases done
    exact scanned

/-! ### Appends that raise -/

/-- Which of a submission's own appends raises: that of the intent or of its rejection, or
that of the answer. The record may have landed before the raise. A gateway whose own
append raises is one that wrote less and raised. -/
inductive SubmitFault where
  | intent (landed : Bool)
  | answer (landed : Bool)

namespace OrderManager

/-- The manager a submission leaves whose append raised. -/
def submitFailing (m : OrderManager) (intent : OrderIntent) (env : SubmitEnv) (fault : SubmitFault) :
    OrderManager :=
  if m.closed then m
  else match env.quote with
    | .error _ => m
    | .ok quote =>
      let counted := { m with seq := m.seq + 1 }
      match m.riskGate intent quote env with
      | .error (.riskRejected code detail) =>
        let rejected := (counted.rejectIntent (m.nextId env) intent code detail env).1
        match fault with
        | .intent false => { rejected with journal := m.journal }
        | _ => rejected
      | .error _ => counted
      | .ok ref =>
        let registered := counted.register (m.nextId env) intent ref env
        match fault with
        -- The time of the send is noted after the append, so it is not noted here.
        | .intent landed => { registered with
            submitTimes := m.submitTimes
            journal := if landed then registered.journal else m.journal }
        | .answer landed =>
          let order := pendingOrder (m.nextId env) intent env
          let call := env.gateway order quote
          let sent := { registered with
            journal := registered.journal ++ gatewayRecords m.mode (m.nextId env) call.written }
          match call.reply with
          | .error _ => sent
          | .ok outcome =>
            match settleOrder order outcome with
            | .error _ => sent
            | .ok settled => { sent with
                orders := sent.orders.set order.clientId settled
                journal :=
                  if landed then
                    sent.journal ++ [⟨env.clock.resultAt, m.mode,
                      .submitResult order.clientId outcome settled.status⟩]
                  else sent.journal }

/-- A resolution whose own append raised: the order is retired and not written down. -/
def resolveFailing (m : OrderManager) (clientId reason : String) (env : ReconcileEnv)
    (recordedAt : Timestamp) : OrderManager :=
  match m.resolveUnknown clientId reason env recordedAt with
  | (after, .ok _) => { after with journal := (m.reconcile env).1.journal }
  | (after, .error _) => after

end OrderManager

/-! ### The desk -/

inductive Desk where
  | idle (journal : List Record)
  | running (manager : OrderManager)

def Desk.journal : Desk → List Record
  | .idle journal => journal
  | .running manager => manager.journal

inductive DeskStep where
  /-- A process is started; it needs the session lock. -/
  | start (mode : ExecutionMode) (limits : RiskLimits) (costs : CostModel) (opening : Ledger)
  /-- The builder writes down what it found. -/
  | announce (at_ : Timestamp) (event : Event)
  | op (op : Op)
  | failSubmit (intent : OrderIntent) (env : SubmitEnv) (fault : SubmitFault)
  | failReconcile (env : ReconcileEnv) (left : Nat)
  | failResolve (clientId reason : String) (env : ReconcileEnv) (recordedAt : Timestamp)
  | die (during : Op) (appends : Nat)

namespace Desk

/-- A restore that raises leaves no session behind. -/
def restart (day : Int) (journal : List Record) (mode : ExecutionMode) (limits : RiskLimits)
    (costs : CostModel) (opening : Ledger) : Desk :=
  match openSession journal mode limits costs day opening with
  | .ok manager => .running manager
  | .error _ => .idle journal

def step (day : Int) : Desk → DeskStep → Desk
  | .idle journal, .start mode limits costs opening => restart day journal mode limits costs opening
  | .idle journal, _ => .idle journal
  | .running m, .start mode limits costs opening =>
    -- A manager gives the lock back when it is closed.
    if m.closed then restart day m.journal mode limits costs opening else .running m
  | .running m, .announce at_ event => .running (if event.opens then m.record at_ event else m)
  | .running m, .op op => .running (m.step op)
  | .running m, .failSubmit intent env fault => .running (m.submitFailing intent env fault)
  | .running m, .failReconcile env left => .running (m.reconcileOn env left).1
  | .running m, .failResolve clientId reason env recordedAt =>
    .running (m.resolveFailing clientId reason env recordedAt)
  | .running m, .die during appends => .idle (cutJournal m during appends)

def run (day : Int) (desk : Desk) (steps : List DeskStep) : Desk := steps.foldl (step day) desk

/-- A journey with its restarts is a run of the desk: a restart is a death and a start. -/
theorem travel_runs (went : travel day m moves = .ok last) :
    ∃ steps, run day (.running m) steps = .running last := by
  induction moves generalizing m with
  | nil =>
    cases went
    exact ⟨[], rfl⟩
  | cons move rest ih =>
    rw [travel, List.foldlM_cons] at went
    obtain ⟨next, moved, later⟩ := bind_ok went
    obtain ⟨steps, ran⟩ := ih later
    suffices first : ∃ front, run day (.running m) front = .running next by
      obtain ⟨front, reached⟩ := first
      refine ⟨front ++ steps, ?_⟩
      rw [run] at reached ⊢
      rw [List.foldl_append, reached]
      exact ran
    cases move with
    | op op =>
      cases moved
      exact ⟨[.op op], rfl⟩
    | restart during appends limits holdings =>
      refine ⟨[.die during appends, .start m.mode limits m.costs (.ofHoldings m.costs holdings)], ?_⟩
      simp only [run, List.foldl_cons, List.foldl_nil, step, restart]
      rw [advance, resume] at moved
      rw [moved]
    | announce at_ event opens =>
      cases moved
      exact ⟨[.announce at_ event], congrArg Desk.running (if_pos opens)⟩

/-- A statement about the manager that runs, or else about the journal that is left. -/
def Holds (Run : OrderManager → Prop) (Rest : List Record → Prop) : Desk → Prop
  | .idle journal => Rest journal
  | .running m => Run m

variable {day : Int} {Run : OrderManager → Prop} {Rest : List Record → Prop}

/-- What every step keeps holds after every run. -/
theorem run_holds {Allowed : DeskStep → Prop}
    (keeps : ∀ desk step, Allowed step → Holds Run Rest desk → Holds Run Rest (desk.step day step))
    (allowed : ∀ step ∈ steps, Allowed step)
    (holds : Holds Run Rest desk) : Holds Run Rest (desk.run day steps) := by
  induction steps generalizing desk with
  | nil => exact holds
  | cons first rest ih =>
    exact ih (fun step member => allowed step (List.mem_cons_of_mem _ member))
      (keeps desk first (allowed first List.mem_cons_self) holds)

/-- The step rule. What an action keeps is kept by an operation, and by one that dies
midway; starts, announcements and failed appends are looked at one by one. -/
theorem step_holds {step : DeskStep} (rest : ∀ m, Run m → Rest m.journal)
    (act : ∀ during, (step = .op during ∨ ∃ appends, step = .die during appends) →
      ∀ start m after, Action start during m after → Run m → Run after)
    (begin_ : ∀ mode limits costs opening, step = .start mode limits costs opening →
      ∀ journal m, Rest journal → openSession journal mode limits costs day opening = .ok m → Run m)
    (announce : ∀ at_ event, step = .announce at_ event → event.opens →
      ∀ m, Run m → Run (m.record at_ event))
    (submit : ∀ intent env fault, step = .failSubmit intent env fault →
      ∀ m, Run m → Run (m.submitFailing intent env fault))
    (reconcile : ∀ env left, step = .failReconcile env left →
      ∀ m, Run m → Run (m.reconcileOn env left).1)
    (resolve : ∀ clientId reason env recordedAt, step = .failResolve clientId reason env recordedAt →
      ∀ m, Run m → Run (m.resolveFailing clientId reason env recordedAt))
    (holds : Holds Run Rest desk) : Holds Run Rest (desk.step day step) := by
  have restarted : ∀ mode limits costs opening, step = .start mode limits costs opening →
      ∀ journal, Rest journal → Holds Run Rest (restart day journal mode limits costs opening) := by
    intro mode limits costs opening asked journal left
    unfold restart
    cases opened : openSession journal mode limits costs day opening with
    | ok m => exact begin_ mode limits costs opening asked journal m left opened
    | error => exact left
  cases desk with
  | idle journal =>
    cases step with
    | start mode limits costs opening => exact restarted mode limits costs opening rfl journal holds
    | _ => exact holds
  | running m =>
    cases step with
    | start mode limits costs opening =>
      simp only [Desk.step]
      split
      · exact restarted mode limits costs opening rfl m.journal (rest m holds)
      · exact holds
    | announce at_ event =>
      simp only [Desk.step]
      split
      · rename_i opens
        exact announce at_ event rfl opens m holds
      · exact holds
    | op op =>
      exact actions_preserve Run (act op (.inl rfl) m) (step_actions m op) holds
    | failSubmit intent env fault => exact submit intent env fault rfl m holds
    | failReconcile env left => exact reconcile env left rfl m holds
    | failResolve clientId reason env recordedAt =>
      exact resolve clientId reason env recordedAt rfl m holds
    | die during appends =>
      obtain ⟨mid, chain, -, journal⟩ := cut_reached m during appends
      have reached := actions_preserve Run (act during (.inr ⟨appends, rfl⟩) m) chain holds
      show Rest (cutJournal m during appends)
      rw [← journal]
      exact rest mid reached

end Desk
end KrxAlpha
