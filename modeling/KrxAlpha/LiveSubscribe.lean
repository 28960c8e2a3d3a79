import Mathlib.Data.List.Nodup
import KrxAlpha.Runs

/-! Subscriptions added while frames are being received. A call sends one request after the
other and waits for each answer, which the receive loop hands to whoever waits; the vendor
answers in send order but says nothing about which request it answers. A request that timed
out may therefore have its answer taken by the next one. -/
namespace KrxAlpha
open List

structure LiveRequest where
  number : Nat
  symbol : String
  stream : String
  deriving DecidableEq

structure VendorAck where
  symbol : String
  stream : String
  accepted : Bool
  code : String
  deriving DecidableEq

/-- An ack with the request it was made for. -/
abbrev MadeAck := LiveRequest × VendorAck

/-- How far a call of `subscribe_live` has come, with the pairs still to send and the acks made. -/
inductive LiveTask where
  | idle
  | ready (todo : List (String × String)) (acks : List MadeAck)
  | sent (request : LiveRequest) (todo : List (String × String)) (acks : List MadeAck)
  | waiting (request : LiveRequest) (todo : List (String × String)) (acks : List MadeAck)
  | resolved (request : LiveRequest) (code : String) (todo : List (String × String)) (acks : List MadeAck)
  | expired (request : LiveRequest) (todo : List (String × String)) (acks : List MadeAck)
  deriving DecidableEq

inductive LiveOutcome where
  | returned (acks : List MadeAck)
  | overCapacity
  | disconnected
  | authRejected
  deriving DecidableEq

/-- What an adapter fixes: its capacity, the codes at which it gives up, and whether rejected
acks mean that its token was refused. -/
structure LiveAdapter where
  capacityPairs : Nat
  fatalCode : String → Bool := fun _ => false
  allRejectedIsAuth : List VendorAck → Bool := fun _ => true

/-- A connection: the adapter's side, the requests the vendor has not answered, oldest first, and
the answers it gave. -/
structure LiveSubscriber where
  task : LiveTask := .idle
  lateAcks : Nat := 0
  subscribed : List (String × String) := []
  outcomes : List LiveOutcome := []
  sentCount : Nat := 0
  owed : List LiveRequest := []
  answered : List (LiveRequest × String) := []

/-- A call begins, a send ends, a waiter is registered, the vendor's next answer is received, the
wait runs out, or the waiting call resumes. -/
inductive LiveEvent where
  | call (pairs : List (String × String))
  | send (succeeds : Bool)
  | register
  | answer (code : String)
  | timeout
  | wake
  deriving DecidableEq

namespace LiveSubscriber

/-- The end of a call: acks that are all rejected may mean a refused token. -/
def finish (adapter : LiveAdapter) (acks : List MadeAck) : LiveOutcome :=
  let answered := (acks.map (·.2)).filter (·.code ≠ "timeout")
  if answered ≠ [] ∧ ¬ answered.any (·.accepted) ∧ adapter.allRejectedIsAuth answered then .authRejected
  else .returned acks

/-- On to the next pair, or out of the call. -/
def advance (adapter : LiveAdapter) (todo : List (String × String)) (acks : List MadeAck)
    (state : LiveSubscriber) : LiveSubscriber :=
  match todo with
  | [] => { state with task := .idle, outcomes := state.outcomes ++ [finish adapter acks] }
  | _ :: _ => { state with task := .ready todo acks }

/-- `_route_live_ack`. -/
def routeLiveAck (code : String) (state : LiveSubscriber) : LiveSubscriber :=
  match state.task with
  | .waiting request todo acks => { state with task := .resolved request code todo acks }
  | _ => if 0 < state.lateAcks then { state with lateAcks := state.lateAcks - 1 } else state

/-- The end of `_await_live_ack` with an answer. -/
def takeAnswer (adapter : LiveAdapter) (request : LiveRequest) (code : String)
    (todo : List (String × String)) (acks : List MadeAck) (state : LiveSubscriber) : LiveSubscriber :=
  if adapter.fatalCode code then
    { state with task := .idle, outcomes := state.outcomes ++ [.disconnected] }
  else
    let accepted := decide (code = "00000")
    let ack : VendorAck := ⟨request.symbol, request.stream, accepted, code⟩
    advance adapter todo (acks ++ [(request, ack)])
      { state with
        subscribed :=
          if accepted then state.subscribed ++ [(request.symbol, request.stream)] else state.subscribed }

def step (adapter : LiveAdapter) (state : LiveSubscriber) : LiveEvent → LiveSubscriber
  | .call pairs =>
    match state.task with
    | .idle =>
      if adapter.capacityPairs < state.subscribed.length + pairs.length then
        { state with outcomes := state.outcomes ++ [.overCapacity] }
      else state.advance adapter pairs []
    | _ => state
  | .send succeeds =>
    match state.task with
    | .ready ((symbol, stream) :: todo) acks =>
      let request : LiveRequest := ⟨state.sentCount, symbol, stream⟩
      if succeeds then
        { state with
          task := .sent request todo acks
          sentCount := state.sentCount + 1
          owed := state.owed ++ [request] }
      else { state with task := .idle, outcomes := state.outcomes ++ [.disconnected] }
    | _ => state
  | .register =>
    match state.task with
    | .sent request todo acks => { state with task := .waiting request todo acks }
    | _ => state
  | .answer code =>
    match state.owed with
    | [] => state
    | request :: rest =>
      routeLiveAck code { state with owed := rest, answered := state.answered ++ [(request, code)] }
  | .timeout =>
    match state.task with
    | .waiting request todo acks => { state with task := .expired request todo acks }
    | _ => state
  | .wake =>
    match state.task with
    | .resolved request code todo acks => state.takeAnswer adapter request code todo acks
    | .expired request todo acks =>
      let ack : VendorAck := ⟨request.symbol, request.stream, false, "timeout"⟩
      advance adapter todo (acks ++ [(request, ack)]) { state with lateAcks := state.lateAcks + 1 }
    | _ => state

/-- The connection after `subscribe`, with the pairs it was accepted for. -/
def connected (held : List (String × String)) : LiveSubscriber := { subscribed := held }

def run (adapter : LiveAdapter) (held : List (String × String)) (events : List LiveEvent) :
    LiveSubscriber :=
  events.foldl (step adapter) (connected held)

/-! ### Attribution -/

end LiveSubscriber

def LiveTask.acks : LiveTask → List MadeAck
  | .idle => []
  | .ready _ acks | .sent _ _ acks | .waiting _ _ acks | .resolved _ _ _ acks | .expired _ _ acks => acks

def LiveOutcome.acks : LiveOutcome → List MadeAck
  | .returned acks => acks
  | _ => []

/-- The ack is for its request's pair, and what it says is the vendor's answer to the request. -/
structure MadeAck.Attributed (answered : List (LiveRequest × String)) (made : MadeAck) : Prop where
  symbol : made.2.symbol = made.1.symbol
  stream : made.2.stream = made.1.stream
  answer : made.2.code ≠ "timeout" → (made.1, made.2.code) ∈ answered

theorem MadeAck.Attributed.more {made : MadeAck}
    (attributed : made.Attributed answered) (entry : LiveRequest × String) :
    made.Attributed (answered ++ [entry]) :=
  { attributed with answer := fun real => mem_append_left _ (attributed.answer real) }

/-- The vendor accepted a request for the pair. -/
def Accepted (answered : List (LiveRequest × String)) (pair : String × String) : Prop :=
  ∃ request, (request, "00000") ∈ answered ∧ (request.symbol, request.stream) = pair

namespace LiveSubscriber

/-- No answer to an earlier request reaches a waiting one. -/
def InTurn (state : LiveSubscriber) (event : LiveEvent) : Prop :=
  match event, state.task, state.owed with
  | .answer _, .waiting request _ _, oldest :: _ => oldest = request
  | _, _, _ => True

structure Safe (held : List (String × String)) (state : LiveSubscriber) : Prop where
  pending : ∀ made ∈ state.task.acks, made.Attributed state.answered
  returned : ∀ outcome ∈ state.outcomes, ∀ made ∈ outcome.acks, made.Attributed state.answered
  resolved : ∀ request code todo acks, state.task = .resolved request code todo acks →
    (request, code) ∈ state.answered
  subscribed : ∀ pair ∈ state.subscribed, pair ∈ held ∨ Accepted state.answered pair
  distinct : (state.answered.map (·.1.number) ++ state.owed.map (·.number)).Nodup
  bound : ∀ number ∈ state.answered.map (·.1.number) ++ state.owed.map (·.number),
    number < state.sentCount

variable {held : List (String × String)}

theorem finish_acks (adapter : LiveAdapter) (acks : List MadeAck) :
    ∀ made ∈ (finish adapter acks).acks, made ∈ acks := by
  intro made member
  simp only [finish] at member
  split_ifs at member
  · simp [LiveOutcome.acks] at member
  · exact member

variable {state : LiveSubscriber}

/-- The call goes on with the acks it has. -/
theorem retask_safe (safe : state.Safe held) {task : LiveTask}
    (same : ∀ made ∈ task.acks, made.Attributed state.answered)
    (open_ : ∀ request code todo acks, task ≠ .resolved request code todo acks) :
    Safe held { state with task } :=
  { safe with
    pending := same
    resolved := fun request code todo acks resolved => absurd resolved (open_ request code todo acks) }

/-- The call ends. -/
theorem close_safe (safe : state.Safe held) {outcome : LiveOutcome}
    (made : ∀ made ∈ outcome.acks, made.Attributed state.answered) :
    Safe held { state with task := .idle, outcomes := state.outcomes ++ [outcome] } := by
  refine { @retask_safe held state safe .idle (by simp [LiveTask.acks]) (by simp) with returned := ?_ }
  exact forall_mem_append.mpr ⟨safe.returned, forall_mem_singleton.mpr made⟩

/-- Leaving a request for the next pair or for the end of the call. -/
theorem advance_safe
    (safe : state.Safe held) (made : ∀ made ∈ acks, made.Attributed state.answered) :
    (state.advance adapter todo acks).Safe held := by
  cases todo with
  | nil => exact close_safe safe fun ack inside => made ack (finish_acks adapter acks ack inside)
  | cons pair todo => exact retask_safe safe made (by simp)

/-- A further answer of the vendor, before it is routed. -/
theorem answer_safe (safe : state.Safe held)
    (owed : state.owed = request :: rest) (code : String) :
    Safe held { state with owed := rest, answered := state.answered ++ [(request, code)] } := by
  have same : (state.answered ++ [(request, code)]).map (·.1.number) ++ rest.map (·.number) =
      state.answered.map (·.1.number) ++ state.owed.map (·.number) := by
    simp [owed]
  exact {
    pending := fun made member => (safe.pending made member).more _
    returned := fun outcome listed made member => (safe.returned outcome listed made member).more _
    resolved := fun request code todo acks task =>
      mem_append_left _ (safe.resolved request code todo acks task)
    subscribed := fun pair member => by
      rcases safe.subscribed pair member with before | ⟨request, accepted, own⟩
      · exact .inl before
      · exact .inr ⟨request, mem_append_left _ accepted, own⟩
    distinct := same ▸ safe.distinct
    bound := same ▸ safe.bound }

theorem take_answer_safe (safe : state.Safe held)
    (task : state.task = .resolved request code todo acks) :
    (state.takeAnswer adapter request code todo acks).Safe held := by
  have own := safe.resolved request code todo acks task
  have pending := safe.pending
  rw [task] at pending
  unfold takeAnswer
  split_ifs with fatal
  · exact close_safe safe (by simp [LiveOutcome.acks])
  · refine advance_safe { safe with subscribed := ?_ } ?_
    · intro pair member
      split_ifs at member with accepted
      · rcases mem_append.mp member with old | new
        · exact safe.subscribed pair old
        · rw [of_decide_eq_true accepted] at own
          exact .inr ⟨request, own, (mem_singleton.mp new).symm⟩
      · exact safe.subscribed pair member
    · exact forall_mem_append.mpr ⟨pending, forall_mem_singleton.mpr ⟨rfl, rfl, fun _ => own⟩⟩

theorem send_safe (safe : state.Safe held) {pair : String × String}
    (made : ∀ made ∈ acks, made.Attributed state.answered) :
    let request : LiveRequest := ⟨state.sentCount, pair.1, pair.2⟩
    Safe held { state with
      task := .sent request todo acks
      sentCount := state.sentCount + 1
      owed := state.owed ++ [request] } := by
  have kept := @retask_safe held state safe (.sent ⟨state.sentCount, pair.1, pair.2⟩ todo acks) made (by simp)
  have fresh : state.sentCount ∉ state.answered.map (·.1.number) ++ state.owed.map (·.number) :=
    fun member => Nat.lt_irrefl _ (safe.bound _ member)
  refine { kept with distinct := ?_, bound := ?_ }
  · rw [map_append, ← append_assoc]
    exact safe.distinct.append (nodup_singleton _) (by simpa using fresh)
  · rw [map_append, ← append_assoc]
    exact forall_mem_append.mpr ⟨fun number old => Nat.lt_succ_of_lt (safe.bound number old), by simp⟩

theorem step_safe
    (inTurn : state.InTurn event) (safe : state.Safe held) : (state.step adapter event).Safe held := by
  obtain ⟨task, lateAcks, subscribed, outcomes, sentCount, owed, answered⟩ := state
  cases event with
  | call pairs =>
    cases task with
    | idle =>
      simp only [step]
      split_ifs
      · exact close_safe safe (by simp [LiveOutcome.acks])
      · exact advance_safe safe (by simp)
    | _ => exact safe
  | send succeeds =>
    cases task with
    | ready todo acks =>
      cases todo with
      | nil => exact safe
      | cons pair todo =>
        simp only [step]
        split_ifs
        · exact send_safe safe safe.pending
        · exact close_safe safe (by simp [LiveOutcome.acks])
    | _ => exact safe
  | register =>
    cases task with
    | sent request todo acks => exact retask_safe safe safe.pending (by simp)
    | _ => exact safe
  | answer code =>
    cases owed with
    | nil => exact safe
    | cons request rest =>
      have received := answer_safe safe rfl code
      cases task with
      | waiting waiter todo acks =>
        -- The waiter takes the answer, which in turn is its own.
        obtain rfl : request = waiter := inTurn
        refine { received with resolved := ?_ }
        rintro other answer left made ⟨⟩
        exact mem_append_right _ (mem_singleton_self _)
      | _ =>
        simp only [step, routeLiveAck]
        split_ifs
        · exact { received with }
        · exact received
  | timeout =>
    cases task with
    | waiting request todo acks => exact retask_safe safe safe.pending (by simp)
    | _ => exact safe
  | wake =>
    cases task with
    | resolved request code todo acks => exact take_answer_safe safe rfl
    | expired request todo acks =>
      refine advance_safe { safe with } (forall_mem_append.mpr ⟨safe.pending, forall_mem_singleton.mpr ?_⟩)
      exact ⟨rfl, rfl, fun real => absurd rfl real⟩
    | _ => exact safe

/-- As long as no answer to an earlier request reaches a waiting one, every ack other than a
timeout says what the vendor answered to that very request, the only answer it gave to it, and
only accepted pairs are subscribed. -/
theorem live_acks_attributed (adapter : LiveAdapter) {events : List LiveEvent}
    (inTurn : Along (step adapter) InTurn (connected held) events) :
    (∀ acks, .returned acks ∈ (run adapter held events).outcomes →
      ∀ made ∈ acks, made.Attributed (run adapter held events).answered) ∧
      ((run adapter held events).answered.map (·.1.number)).Nodup ∧
      ∀ pair ∈ (run adapter held events).subscribed,
        pair ∈ held ∨ Accepted (run adapter held events).answered pair := by
  have start : Safe held (connected held) :=
    ⟨by simp [connected, LiveTask.acks], by simp [connected], by simp [connected],
      fun _ before => .inl before, by simp [connected], by simp [connected]⟩
  have safe : (run adapter held events).Safe held :=
    foldl_preserves (Safe held) (fun _ _ meets safe => step_safe meets safe) inTurn start
  exact ⟨fun acks listed => safe.returned _ listed, safe.distinct.of_append_left, safe.subscribed⟩

def Sample.plainAdapter : LiveAdapter := { capacityPairs := 10 }

def Sample.twoPairs : LiveEvent := .call [("005930", "H0STCNT0"), ("000660", "H0STCNT0")]

/-- The first request times out and is answered before the second is sent. -/
def Sample.lateAnswer : List LiveEvent :=
  [twoPairs, .send true, .register, .timeout, .wake, .answer "00000", .send true, .register,
    .answer "00000", .wake]

theorem late_answer_attributed :
    Along (step Sample.plainAdapter) InTurn (connected []) Sample.lateAnswer ∧
      ∀ pair ∈ (run Sample.plainAdapter [] Sample.lateAnswer).subscribed,
        pair ∈ [] ∨ Accepted (run Sample.plainAdapter [] Sample.lateAnswer).answered pair := by
  have inTurn : Along (step Sample.plainAdapter) InTurn (connected []) Sample.lateAnswer := by
    simp [Along, Sample.lateAnswer, Sample.twoPairs, Sample.plainAdapter, InTurn, step, advance, connected,
      routeLiveAck]
  exact ⟨inTurn, (live_acks_attributed _ inTurn).2.2⟩

/-- The first request's answer arrives once the second waits. -/
def Sample.crossedAnswers : List LiveEvent :=
  [twoPairs, .send true, .register, .timeout, .wake, .send true, .register, .answer "00000", .wake,
    .answer "90000"]

/-- The second pair is rejected, yet its ack carries the first pair's acceptance and it counts as
subscribed. -/
theorem answers_crossed :
    let last := run Sample.plainAdapter [] Sample.crossedAnswers
    last.answered = [(⟨0, "005930", "H0STCNT0"⟩, "00000"), (⟨1, "000660", "H0STCNT0"⟩, "90000")] ∧
      last.outcomes = [.returned [(⟨0, "005930", "H0STCNT0"⟩, ⟨"005930", "H0STCNT0", false, "timeout"⟩),
        (⟨1, "000660", "H0STCNT0"⟩, ⟨"000660", "H0STCNT0", true, "00000"⟩)]] ∧
      last.subscribed = [("000660", "H0STCNT0")] ∧
      ¬ Accepted last.answered ("000660", "H0STCNT0") := by
  intro last
  have answers : last.answered = [(⟨0, "005930", "H0STCNT0"⟩, "00000"), (⟨1, "000660", "H0STCNT0"⟩, "90000")] := by
    decide +kernel
  refine ⟨answers, by decide +kernel, by decide +kernel, ?_⟩
  rintro ⟨request, accepted, own⟩
  rw [answers] at accepted
  simp only [mem_cons, Prod.mk.injEq, not_mem_nil, or_false] at accepted
  rcases accepted with ⟨rfl, -⟩ | ⟨-, code⟩
  · simp at own
  · simp at code

end LiveSubscriber
end KrxAlpha
