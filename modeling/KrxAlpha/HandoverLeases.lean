import KrxAlpha.Handover
import KrxAlpha.LeaseSafety

/-! The handover with its lease ledger. Every connection holds a slot: the bring-up in flight, the
standby and the primary each keep a lease, which moves from one to the next or is given back. The
ledger's answers are those of the shared file, with the calls of other processes served in between;
what the connections do with the answers is the handover's own. -/
namespace KrxAlpha

/-- What surrounds one call of the handover: the calls of other processes served before it, the
clock, the token drawn for a new lease, and whether the file can be read and replaced. -/
structure LedgerTurn where
  others : List LeaseCall := []
  now : Int := 0
  storedAt : Int := 0
  drawn : String := ""
  readable : Bool := true
  writable : Bool := true

def LedgerTurn.call (turn : LedgerTurn) (op : LeaseOp) : LeaseCall :=
  ⟨op, turn.now, turn.storedAt, turn.drawn, turn.readable, turn.writable⟩

/-- A process that uses a ledger, with the turns its calls will get. -/
structure LeaseHolder where
  ledger : WsLeaseLedger
  owner : String
  settings : HandoverSettings
  ledgered : settings.ledgered = true
  turns : Nat → LedgerTurn

/-- The handover, its leases and the ledger. `granted` lists the tokens it was ever given,
`preempted` those of bring-ups whose lease was marked for another process when it was to be
renewed, and `replaced` those of connections whose place was given to another one. -/
structure LeasedHandover where
  handover : Handover := {}
  openingLease : Option Lease := none
  standbyLease : Option Lease := none
  primaryLease : Option Lease := none
  world : LeaseWorld := {}
  turn : Nat := 0
  granted : List String := []
  preempted : List String := []
  replaced : List String := []

/-- The tokens of the leases the handover has. -/
def LeasedHandover.held (state : LeasedHandover) : List String :=
  [state.openingLease, state.standbyLease, state.primaryLease].filterMap (·.map (·.token))

/-- The token's entry is marked for another process. -/
def LeasedHandover.marked (state : LeasedHandover) (token : String) : Bool :=
  state.world.file.leases.any fun entry => entry.token = token && entry.preempt

namespace LeaseHolder

variable (holder : LeaseHolder)

/-! ### Calls to the ledger -/

def call (state : LeasedHandover) (op : LeaseOp) : LeasedHandover × LeaseReply :=
  let turn := holder.turns state.turn
  let world := turn.others.foldl holder.ledger.step state.world
  ({ state with world := holder.ledger.step world (turn.call op), turn := state.turn + 1 },
    (holder.ledger.serve world.file (turn.call op)).2)

/-- `_renew`: a ledger that cannot be used keeps the lease. -/
def renew (state : LeasedHandover) (lease : Lease) : LeasedHandover × Bool :=
  let served := holder.call state (.renew lease.token)
  (served.1, served.2 ≠ .renewed false)

def releaseLease (state : LeasedHandover) : Option Lease → LeasedHandover
  | none => state
  | some lease => (holder.call state (.release lease.token)).1

/-- Ask for a slot, `none` if it is denied. -/
def acquire (state : LeasedHandover) (role : LeaseRole) : LeasedHandover × Option Lease :=
  let served := holder.call state (.acquire holder.owner role)
  match served.2 with
  | .granted lease => (served.1, some lease)
  | _ => (served.1, none)

/-- `_acquire_primary`, with its answer kept. -/
def acquirePrimary (state : LeasedHandover) : LeasedHandover :=
  let asked := holder.acquire state .primary
  { asked.1 with
    primaryLease := asked.2
    granted := asked.1.granted ++ (asked.2.map (·.token)).toList }

/-! ### Openings -/

/-- `_start_opening`; `start` is what the handover makes of the ledger's answer. -/
def startOpening (state : LeasedHandover) (start : Bool → Handover) : LeasedHandover :=
  let asked := holder.acquire state .standby
  match asked.2 with
  | none => { asked.1 with handover := start false }
  | some lease =>
    { asked.1 with
      handover := start true
      openingLease := some lease
      granted := asked.1.granted ++ [lease.token]
      replaced := asked.1.replaced ++ (state.openingLease.map (·.token)).toList }

/-- `maybe_start`, which asks the ledger when it comes to open a standby. -/
def maybeStart (state : LeasedHandover) (eligible : Bool) (liveConnections : Int)
    (answers : StartAnswers) : LeasedHandover :=
  let told (granted : Bool) :=
    state.handover.maybeStart holder.settings eligible liveConnections { answers with granted }
  if (told true).opening && !state.handover.opening then holder.startOpening state told
  else { state with handover := told true }

/-- Adopt a finished opening with its lease, or give the lease back. -/
def adopt (state : LeasedHandover) (answers : StepAnswers) : LeasedHandover :=
  let handover := state.handover.adopt holder.settings answers
  if state.handover.opening then
    match answers.opening with
    | .pending => state
    | .failed => holder.releaseLease { state with handover, openingLease := none } state.openingLease
    | .opened _ =>
      -- an adapter that comes without a lease is closed again
      { state with
        handover
        openingLease := none
        standbyLease := state.openingLease
        replaced := state.replaced ++ (state.standbyLease.map (·.token)).toList }
  else state

/-! ### The standby -/

def dropStandby (state : LeasedHandover) : LeasedHandover :=
  holder.releaseLease { state with handover := state.handover.dropStandby, standbyLease := none }
    state.standbyLease

/-- The part of `step` that carries out a refresh. -/
def refresh (state : LeasedHandover) : LeasedHandover :=
  holder.startOpening (holder.dropStandby state) (state.handover.refresh holder.settings)

def renewStandby (state : LeasedHandover) : LeasedHandover × Bool :=
  match state.standbyLease with
  | none => (state, true)
  | some lease => holder.renew state lease

/-! ### Tending -/

/-- A bring-up that has lost its lease is cancelled. Its slot is not given back. -/
def tendOpening (state : LeasedHandover) : LeasedHandover × Bool :=
  match state.openingLease with
  | none => (state, true)
  | some lease =>
    if state.handover.opening then
      let renewed := holder.renew state lease
      if renewed.2 then renewed
      else
        ({ renewed.1 with
            openingLease := none
            preempted := renewed.1.preempted ++
              (if renewed.1.marked lease.token then [lease.token] else []) }, false)
    else (state, true)

def tendStandby (state : LeasedHandover) : LeasedHandover × Bool :=
  let renewed := holder.renewStandby state
  if renewed.2 then renewed else (holder.dropStandby renewed.1, false)

def tendPrimary (state : LeasedHandover) : LeasedHandover :=
  match state.primaryLease with
  | none => holder.acquirePrimary state
  | some lease =>
    let renewed := holder.renew state lease
    if renewed.2 then renewed.1 else holder.acquirePrimary renewed.1

/-- `_tend_leases` -/
def tendLeases (state : LeasedHandover) (answers : StepAnswers) : LeasedHandover :=
  if state.handover.leaseTendedAt.any (answers.tendedAt - · < holder.settings.leaseRenewS) then state
  else
    let opening := holder.tendOpening state
    let standby := holder.tendStandby opening.1
    let told := { answers with openingRenewed := opening.2, standbyRenewed := standby.2 }
    holder.tendPrimary
      { standby.1 with handover := state.handover.tendLeases holder.settings told }

/-! ### Cut-over -/

/-- Make the standby's lease the primary one. One that cannot be promoted is given back and another
is asked for. -/
def promoteStandby (state : LeasedHandover) : Option Lease → LeasedHandover
  | none => holder.acquirePrimary state
  | some lease =>
    let served := holder.call state (.promote lease.token)
    match served.2 with
    | .granted raised => { served.1 with primaryLease := some raised }
    | _ => holder.acquirePrimary (holder.releaseLease served.1 (some lease))

/-- `_take_over_primary_lease` -/
def takeOverPrimaryLease (state : LeasedHandover) (standbyLease : Option Lease) : LeasedHandover :=
  holder.releaseLease (holder.promoteStandby { state with primaryLease := none } standbyLease)
    state.primaryLease

def cutOver (state : LeasedHandover) : LeasedHandover :=
  holder.takeOverPrimaryLease { state with handover := state.handover.cutOver, standbyLease := none }
    state.standbyLease

def cutWhenDue (state : LeasedHandover) (standbyFailed : Bool) (answers : StepAnswers) :
    LeasedHandover × Option (Connection × CutReason) :=
  match state.handover.standby with
  | none => (state, none)
  | some standby =>
    if standbyFailed then (holder.dropStandby state, none)
    else if answers.window then (state, none)
    else
      let caughtUp := standby.firstEventS.any (· ≤ state.handover.primaryEventS)
      let expired := decide (holder.settings.maxS ≤ answers.now - standby.started)
      if !(caughtUp || expired) then (state, none)
      else
        let renewed := holder.renewStandby state
        if renewed.2 then
          (holder.cutOver renewed.1, some (standby.adapter, if caughtUp then .caughtUp else .forced))
        else (holder.dropStandby renewed.1, none)

/-- Take a finished opening and look after the leases. -/
def settle (state : LeasedHandover) (answers : StepAnswers) : LeasedHandover :=
  holder.tendLeases (holder.adopt state answers) answers

def step (state : LeasedHandover) (standbyFailed : Bool) (answers : StepAnswers) :
    LeasedHandover × Option (Connection × CutReason) :=
  if state.handover.refreshPending then (holder.refresh state, none)
  else holder.cutWhenDue (holder.settle state answers) standbyFailed answers

def onPrimaryFailure (state : LeasedHandover) : LeasedHandover × Option (Connection × CutReason) :=
  match state.handover.standby with
  | none => (state, none)
  | some standby => (holder.cutOver state, some (standby.adapter, .primaryFailed))

/-- `aclose` -/
def close (state : LeasedHandover) : LeasedHandover :=
  let stopped :=
    if state.handover.opening then
      holder.releaseLease { state with openingLease := none } state.openingLease
    else state
  { holder.dropStandby stopped with handover := state.handover.close }

def releasePrimaryLease (state : LeasedHandover) : LeasedHandover :=
  holder.releaseLease { state with primaryLease := none } state.primaryLease

/-! ### Runs -/

end LeaseHolder

/-- What can happen to a handover: its methods are called, frames come in, the lag monitor asks for
a swap, and other processes use the ledger. -/
inductive LeasedOp where
  | request
  | receive (frame : L0Frame) (fromStandby : Bool)
  | maybeStart (eligible : Bool) (liveConnections : Int) (answers : StartAnswers)
  | step (standbyFailed : Bool) (answers : StepAnswers)
  | onPrimaryFailure
  | close
  | releasePrimaryLease
  | others (calls : List LeaseCall)

namespace LeaseHolder

variable (holder : LeaseHolder)

def apply (state : LeasedHandover) : LeasedOp → LeasedHandover
  | .request => { state with handover.requested := true }
  | .receive frame fromStandby =>
    { state with handover := (state.handover.admitFrame frame fromStandby).1 }
  | .maybeStart eligible liveConnections answers => holder.maybeStart state eligible liveConnections answers
  | .step standbyFailed answers => (holder.step state standbyFailed answers).1
  | .onPrimaryFailure => (holder.onPrimaryFailure state).1
  | .close => holder.close state
  | .releasePrimaryLease => holder.releasePrimaryLease state
  | .others calls => { state with world := calls.foldl holder.ledger.step state.world }

/-- A new handover. The primary's lease was asked for before, unless the process goes without. -/
def start (leased : Bool) (tendedAt : Int) : LeasedHandover :=
  let state : LeasedHandover := { handover := { leaseTendedAt := some tendedAt } }
  if leased then holder.acquirePrimary state else state

def run (leased : Bool) (tendedAt : Int) (ops : List LeasedOp) : LeasedHandover :=
  ops.foldl holder.apply (holder.start leased tendedAt)

end LeaseHolder
end KrxAlpha
