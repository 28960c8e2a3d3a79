import KrxAlpha.Dict

/-! The handover from one vendor connection to the next. A standby connection is opened
beside the primary one and takes over once the primary has caught up with the standby's
first event, has failed, or the time is up. While both are open a memory of payloads
keeps an event from being recorded from both. Clocks, the session window, the lease
ledger and the outcome of connection attempts are answers the operations are given. -/
namespace KrxAlpha

/-- A received frame; `eventSecond` is what `event_second_of` reads from it. -/
structure L0Frame where
  stream : String
  symbol : String
  raw : String
  recvWallNs : Int
  connSeq : Int
  connId : String
  eventSecond : Option (Fin 86400) := none
  deriving DecidableEq

/-- What the duplicate memory knows a frame by; its hash is taken to be injective. -/
abbrev FrameKey := String × String × String

def L0Frame.key (frame : L0Frame) : FrameKey := (frame.stream, frame.symbol, frame.raw)

/-- A vendor connection and the symbols subscribed on it. -/
structure Connection where
  connId : String
  symbols : List String
  deriving DecidableEq

/-- The settings, within the bounds the constructor checks. `leaseRenewS` is a third of
the lease time; it only counts when a lease ledger is used. -/
structure HandoverSettings where
  maxS : Int
  cooldownS : Int := 0
  stallLagS : Option Int := none
  refreshCooldownS : Int := 30
  maxSessions : Option Int := none
  ledgered : Bool := false
  leaseRenewS : Int := 0
  lasting : 0 < maxS
  cooling : 0 ≤ cooldownS := by decide

/-- The duplicate memory's cap. -/
def seenCap : Nat := 400000

structure Standby where
  adapter : Connection
  started : Int
  firstEventS : Option Int := none
  newestEventS : Option Int := none
  leased : Bool := false
  deriving DecidableEq

/-- The handover's state. The payload memory maps a key to its owner: 0 for the primary
and a fresh number for every standby adopted. -/
structure Handover where
  requested : Bool := false
  opening : Bool := false
  openingLease : Bool := false
  standby : Option Standby := none
  lastStart : Option Int := none
  lastRefresh : Option Int := none
  refreshPending : Bool := false
  refreshOverlap : Bool := false
  seen : Dict FrameKey Nat := ∅
  standbyOwner : Nat := 0
  primaryEventS : Int := -1
  dropped : Nat := 0
  leaseTendedAt : Option Int := none

/-- What `maybe_start` is told: the clocks, the window, and the ledger's answer to a
standby request. -/
structure StartAnswers where
  now : Int := 0
  lagNow : Int := 0
  wallSecond : Int := 0
  window : Bool := false
  granted : Bool := true

inductive OpeningResult where
  | pending
  | failed
  | opened (adapter : Connection)
  deriving DecidableEq

/-- What `step` is told. The readings of the clock are those of the adoption, of the
lease check and of the expiry test. -/
structure StepAnswers where
  opening : OpeningResult := .pending
  adoptedAt : Int := 0
  tendedAt : Int := 0
  now : Int := 0
  window : Bool := false
  granted : Bool := true
  openingRenewed : Bool := true
  standbyRenewed : Bool := true
  cutRenewed : Bool := true

inductive CutReason where
  | caughtUp | forced | primaryFailed
  deriving DecidableEq

namespace Handover

def active (handover : Handover) : Bool := handover.opening || handover.standby.isSome

/-- `standby_lag_s`, for a standby that is there. -/
def standbyLag (standby : Standby) (answers : StartAnswers) : Int :=
  match standby.newestEventS with
  | none => max 0 (answers.lagNow - standby.started)
  | some newest => max 0 (answers.wallSecond - newest)

/-- `_start_opening`, and whether the ledger allowed it. -/
def startOpening (settings : HandoverSettings) (handover : Handover) (granted : Bool) :
    Handover × Bool :=
  if settings.ledgered && !granted then (handover, false)
  else ({ handover with opening := true, openingLease := settings.ledgered }, true)

def maybeStart (settings : HandoverSettings) (handover : Handover) (eligible : Bool)
    (liveConnections : Int) (answers : StartAnswers) : Handover :=
  if handover.opening then handover
  else
    match settings.stallLagS, handover.standby, handover.requested with
    | some stall, some standby, true =>
      if stall ≤ standbyLag standby answers ∧
          handover.lastRefresh.all (fun last => settings.refreshCooldownS ≤ answers.now - last) then
        { handover with
          requested := false
          lastRefresh := some answers.now
          refreshPending := true }
      else handover
    | _, _, _ =>
      let taken := { handover with requested := false }
      let started := { taken with lastStart := some answers.now }
      if ¬ (handover.requested ∨ answers.window) ∨ ¬ eligible ∨ handover.active then taken
      else if handover.lastStart.any (answers.now - · < settings.cooldownS) then taken
      else if settings.maxSessions.any (· ≤ liveConnections) then started
      else (startOpening settings started answers.granted).1

/-- The memory is consulted. -/
def Live (handover : Handover) : Prop :=
  handover.standby.isSome ∨ handover.refreshOverlap = true

instance (handover : Handover) : Decidable handover.Live := inferInstanceAs (Decidable (_ ∨ _))

/-- Book the event time of a frame for the side it came from. -/
def noteEvent (handover : Handover) (eventS : Option Int) (fromStandby : Bool) : Handover :=
  match eventS with
  | none => handover
  | some second =>
    match fromStandby, handover.standby with
    | true, some standby =>
      { handover with
        standby := some { standby with
          firstEventS := some (standby.firstEventS.getD second)
          newestEventS := some (standby.newestEventS.elim second (max · second)) } }
    | _, _ => { handover with primaryEventS := max handover.primaryEventS second }

/-- The memory, with its oldest quarter dropped when it is over the cap. -/
def trimmed (handover : Handover) : Dict FrameKey Nat :=
  if seenCap < handover.seen.entries.length then handover.seen.dropOldest (seenCap / 4)
  else handover.seen

/-- The owner number of a side. -/
def token (handover : Handover) (fromStandby : Bool) : Nat :=
  if fromStandby then handover.standbyOwner else 0

/-- Account a frame; the answer is whether it is to be recorded. -/
def admitFrame (handover : Handover) (frame : L0Frame) (fromStandby : Bool) : Handover × Bool :=
  if handover.Live then
    let noted := handover.noteEvent (frame.eventSecond.map fun second => (second.val : Int)) fromStandby
    let seen := handover.trimmed
    match seen.get? frame.key with
    | some owner =>
      if owner = handover.token fromStandby then ({ noted with seen }, true)
      else ({ noted with seen, dropped := noted.dropped + 1 }, false)
    | none => ({ noted with seen := seen.set frame.key (handover.token fromStandby) }, true)
  else (handover, true)

def dropStandby (handover : Handover) : Handover := { handover with standby := none, seen := ∅ }

def cutOver (handover : Handover) : Handover :=
  { handover with standby := none, seen := ∅, requested := false }

/-- Adopt a finished opening as the standby, or give it up. -/
def adopt (settings : HandoverSettings) (handover : Handover) (answers : StepAnswers) : Handover :=
  if handover.opening then
    let closed := { handover with opening := false, openingLease := false, refreshOverlap := false }
    match answers.opening with
    | .pending => handover
    | .failed => { closed with seen := ∅ }
    | .opened adapter =>
      if settings.ledgered && !handover.openingLease then { closed with seen := ∅ }
      else
        { closed with
          standby := some { adapter, started := answers.adoptedAt, leased := handover.openingLease }
          standbyOwner := handover.standbyOwner + 1
          seen := if handover.refreshOverlap then handover.seen else ∅
          primaryEventS := -1
          dropped := 0 }
  else handover

/-- `_tend_leases`, as far as the two connections in flight are concerned. -/
def tendLeases (settings : HandoverSettings) (handover : Handover) (answers : StepAnswers) :
    Handover :=
  if handover.leaseTendedAt.any (answers.tendedAt - · < settings.leaseRenewS) then handover
  else
    let tended := { handover with
      leaseTendedAt := some answers.tendedAt
      openingLease := handover.openingLease && (!handover.opening || answers.openingRenewed) }
    if tended.standby.any (·.leased) && !answers.standbyRenewed then tended.dropStandby else tended

/-- Keep the dropped standby's keys and start another bring-up. -/
def refresh (settings : HandoverSettings) (handover : Handover) (granted : Bool) : Handover :=
  let opened := startOpening settings
    { handover with refreshPending := false, standby := none } granted
  { opened.1 with refreshOverlap := opened.2 }

/-- Take a finished opening and look after the leases. -/
def settle (settings : HandoverSettings) (handover : Handover) (answers : StepAnswers) : Handover :=
  let adopted := adopt settings handover answers
  if settings.ledgered then tendLeases settings adopted answers else adopted

/-- The end of `step`: drop a failed standby, and cut over when due. -/
def cutWhenDue (settings : HandoverSettings) (handover : Handover) (standbyFailed : Bool)
    (answers : StepAnswers) : Handover × Option (Connection × CutReason) :=
  match handover.standby with
  | none => (handover, none)
  | some standby =>
    if standbyFailed then (handover.dropStandby, none)
    else if answers.window then (handover, none)
    else
      let caughtUp := standby.firstEventS.any (· ≤ handover.primaryEventS)
      let expired := decide (settings.maxS ≤ answers.now - standby.started)
      if !(caughtUp || expired) then (handover, none)
      else if standby.leased && !answers.cutRenewed then (handover.dropStandby, none)
      else (handover.cutOver, some (standby.adapter, if caughtUp then .caughtUp else .forced))

def step (settings : HandoverSettings) (handover : Handover) (standbyFailed : Bool)
    (answers : StepAnswers) : Handover × Option (Connection × CutReason) :=
  if handover.refreshPending then (refresh settings handover answers.granted, none)
  else cutWhenDue settings (settle settings handover answers) standbyFailed answers

/-- `on_primary_failure`: the standby takes over if there is one. -/
def onPrimaryFailure (handover : Handover) : Handover × Option (Connection × CutReason) :=
  match handover.standby with
  | none => (handover, none)
  | some standby => (handover.cutOver, some (standby.adapter, .primaryFailed))

def close (handover : Handover) : Handover :=
  { handover with opening := false, openingLease := false, refreshOverlap := false }.dropStandby

end Handover
end KrxAlpha
