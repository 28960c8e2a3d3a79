import KrxAlpha.Dict
import KrxAlpha.Runs
import Mathlib.Algebra.Order.Ring.Rat

/-! The ledger by which the processes of a deployment share one budget of alert mails. One file
holds the counts of one day. A process takes the file's lock, loads the state, reserves a slot
for the mail it is about to send, and later commits the slot or gives it back; a state of
another day is replaced by an empty one. Storage and lock work, so a call is one step. -/
namespace KrxAlpha

/-- Limits of the mails of a day, as the constructor accepts them. -/
structure AlertLimits where
  cooldownS : ℚ := 1800
  dailyCap : Nat := 20
  perKeyDailyCap : Nat := 1
  firstOccurrenceReserve : Nat := 5
  perKey : 1 ≤ perKeyDailyCap
  reserved : firstOccurrenceReserve < dailyCap

inductive SuppressedReason where
  | dailyCap | perKeyCap | repeatBudget | cooldown
  deriving DecidableEq

structure AlertDecision where
  send : Bool
  suppressedReason : Option SuppressedReason
  previousLastSentS : Option ℚ
  reservationId : Option String := none
  deriving DecidableEq

structure KeyBudget where
  count : Nat := 0
  lastSentS : Option ℚ := none
  confirmedCount : Nat := 0
  lastSuccessS : Option ℚ := none
  deriving DecidableEq

/-- A process: its number and when it started, which tells apart two that had the same number. -/
structure AlertOwner where
  pid : Nat
  start : String
  deriving DecidableEq

structure Reservation where
  key : String
  nowS : ℚ
  owner : AlertOwner
  deriving DecidableEq

/-- The state of one day; days are counted. -/
structure AlertState where
  day : Int
  sentToday : Nat := 0
  keys : Dict String KeyBudget := ∅
  reservations : Dict String Reservation := ∅

/-- The latest of some times. -/
def latestOf : List ℚ → Option ℚ
  | [] => none
  | time :: rest => some (rest.foldl (fun best other => if best < other then other else best) time)

namespace AlertState

/-- A key's budget counted anew from the confirmed mails and the pending reservations. -/
def refreshBudget (reservations : Dict String Reservation) (key : String) (budget : KeyBudget) :
    KeyBudget :=
  let pending := (reservations.values.filter (·.key = key)).map (·.nowS)
  { budget with
    count := budget.confirmedCount + pending.length
    lastSentS := latestOf (pending ++ budget.lastSuccessS.toList) }

/-- What the budgets add up to. -/
def sumCounts (keys : Dict String KeyBudget) : Nat := (keys.values.map (·.count)).sum

def refreshKey (state : AlertState) (key : String) : AlertState :=
  match state.keys.get? key with
  -- A missing key is a `KeyError`; every caller has seen the key.
  | none => state
  | some budget =>
    let budget := refreshBudget state.reservations key budget
    let keys := if budget.count = 0 then state.keys.erase key else state.keys.set key budget
    { state with keys, sentToday := sumCounts keys }

/-- End a reservation, as sent or not. -/
def finish (state : AlertState) (key reservationId : String) (success : Bool) : Option AlertState :=
  match state.reservations.get? reservationId, state.keys.get? key with
  | some reservation, some budget =>
    if reservation.key = key then
      let lastSuccessS := match budget.lastSuccessS with
        | some last => if reservation.nowS < last then last else reservation.nowS
        | none => reservation.nowS
      let confirmed := { budget with
        confirmedCount := budget.confirmedCount + 1, lastSuccessS := some lastSuccessS }
      some (refreshKey
        { state with
          reservations := state.reservations.erase reservationId
          keys := state.keys.set key (if success then confirmed else budget) } key)
    else none
  | _, _ => none

end AlertState

def decideSuppression (sentToday keyCount : Nat) (last : Option ℚ) (nowS : ℚ) (limits : AlertLimits) :
    Option SuppressedReason :=
  if sentToday ≥ limits.dailyCap then some .dailyCap
  else if keyCount ≥ limits.perKeyDailyCap then some .perKeyCap
  else if keyCount > 0 ∧ sentToday ≥ limits.dailyCap - limits.firstOccurrenceReserve then
    some .repeatBudget
  else match last with
    | some last => if nowS - last < limits.cooldownS then some .cooldown else none
    | none => none

/-- The identifier is the one drawn for the reservation. -/
def reserveSlot (state : AlertState) (key : String) (nowS : ℚ) (limits : AlertLimits)
    (owner : AlertOwner) (drawn : String) : AlertDecision × AlertState :=
  let budget := (state.keys.get? key).getD {}
  match decideSuppression state.sentToday budget.count budget.lastSentS nowS limits with
  | some reason =>
    ({ send := false, suppressedReason := some reason, previousLastSentS := budget.lastSentS }, state)
  | none =>
    ({ send := true, suppressedReason := none, previousLastSentS := budget.lastSentS
       reservationId := some drawn },
      AlertState.refreshKey
        { state with
          keys := state.keys.set key budget
          reservations := state.reservations.set drawn { key, nowS, owner } } key)

/-- Take back the reservations of processes that are gone, and say whether there was one. -/
def reapAbandoned (alive : AlertOwner → Bool) (state : AlertState) : AlertState × Bool :=
  state.reservations.entries.foldl
    (fun (state, changed) (reservationId, reservation) =>
      if alive reservation.owner then (state, changed)
      else ((state.finish reservation.key reservationId false).getD state, true))
    (state, false)

/-! ### The file -/

/-- The ledger's file: missing, not JSON of the schema, or a state under a schema version. -/
inductive AlertFile where
  | missing | garbled
  | stored (version : Nat) (state : AlertState)

namespace AlertFile

/-- Before version 2 every mail counted was a confirmed one. -/
def migrate (raw : AlertState) : AlertState :=
  { raw with keys := raw.keys.mapValues fun budget =>
      { budget with confirmedCount := budget.count, lastSuccessS := budget.lastSentS } }

/-- One round of the check of the budgets, which counts the budget anew on the way. -/
def checkKey (state : AlertState) (entry : String × KeyBudget) : Option AlertState :=
  if decide (entry.2.confirmedCount = 0) ≠ entry.2.lastSuccessS.isNone then none
  else
    let counted := AlertState.refreshBudget state.reservations entry.1 entry.2
    if counted.count ≠ entry.2.count ∨ counted.lastSentS ≠ entry.2.lastSentS then none
    else some (state.refreshKey entry.1)

def validate (raw : AlertState) : Option AlertState :=
  if raw.reservations.values.any fun reservation => !raw.keys.contains reservation.key then none
  else do
    let state ← raw.keys.entries.foldlM checkKey raw
    let sentToday := AlertState.sumCounts state.keys
    if sentToday ≠ raw.sentToday then none else some { state with sentToday }

/-- What cannot be read as a state is taken for an empty day. -/
def load (file : AlertFile) (day : Int) : AlertState :=
  match file with
  | .missing => { day }
  | .garbled => { day }
  | .stored version raw =>
    if version = 1 then (validate (migrate raw)).getD { day }
    else if version = 2 then (validate raw).getD { day }
    else { day }

/-- The state is written only when it has changed. -/
def reserve (file : AlertFile) (limits : AlertLimits) (alive : AlertOwner → Bool) (owner : AlertOwner)
    (key : String) (day : Int) (nowS : ℚ) (drawn : String) : AlertDecision × AlertFile :=
  let loaded := file.load day
  let state := if loaded.day ≠ day then { day } else loaded
  let reaped := reapAbandoned alive state
  let slot := reserveSlot reaped.1 key nowS limits owner drawn
  (slot.1, if slot.1.send || reaped.2 then .stored 2 slot.2 else file)

def finish (file : AlertFile) (key : String) (day : Int) (reservationId : Option String)
    (success : Bool) : AlertFile :=
  match reservationId with
  | none => file
  | some reservationId =>
    let state := file.load day
    if state.day = day then
      match state.finish key reservationId success with
      | some state => .stored 2 state
      | none => file
    else file

def commit (file : AlertFile) (key : String) (day : Int) (reservationId : Option String) : AlertFile :=
  file.finish key day reservationId true

def release (file : AlertFile) (key : String) (day : Int) (reservationId : Option String) : AlertFile :=
  file.finish key day reservationId false

end AlertFile

/-! ### The processes that share it -/

/-- A slot that was granted, as its owner remembers it. -/
structure AlertGrant where
  reservationId : String
  key : String
  day : Int
  owner : AlertOwner
  deriving DecidableEq

/-- The file, the slots that are granted and not ended, those that were committed, and the days
brought by the reservations so far. -/
structure AlertHost where
  file : AlertFile
  outstanding : List AlertGrant := []
  committed : List AlertGrant := []
  days : List Int := []

/-- A call on the ledger, by any process at any time. -/
inductive AlertCall where
  | reserve (alive : AlertOwner → Bool) (owner : AlertOwner) (key : String) (day : Int) (nowS : ℚ)
      (drawn : String)
  | commit (key : String) (day : Int) (reservationId : Option String)
  | release (key : String) (day : Int) (reservationId : Option String)

/-- The call that ends a slot names it, its key and its day. -/
def AlertGrant.endedBy (key : String) (day : Int) (reservationId : Option String) (grant : AlertGrant) :
    Bool :=
  reservationId = some grant.reservationId && grant.key = key && grant.day = day

def AlertHost.step (limits : AlertLimits) (host : AlertHost) : AlertCall → AlertHost
  | .reserve alive owner key day nowS drawn =>
    let answer := host.file.reserve limits alive owner key day nowS drawn
    { host with
      file := answer.2
      outstanding := host.outstanding ++ match answer.1.reservationId with
        | some reservationId => [{ reservationId, key, day, owner }]
        | none => []
      days := host.days ++ [day] }
  | .commit key day reservationId =>
    { host with
      file := host.file.commit key day reservationId
      outstanding := host.outstanding.filter (!·.endedBy key day reservationId)
      committed := host.committed ++ host.outstanding.filter (·.endedBy key day reservationId) }
  | .release key day reservationId =>
    { host with
      file := host.file.release key day reservationId
      outstanding := host.outstanding.filter (!·.endedBy key day reservationId) }

end KrxAlpha
