import KrxAlpha.Runs
import Mathlib.Algebra.Order.Ring.Rat
import Mathlib.Logic.Function.Basic

/-! The token a host shares under one credential. A file holds the record of the token; a caller
that finds none it can use takes the lock of the file, looks again, asks the vendor for a new
token and replaces the record. Callers read the file without the lock too, so a step here is
what one caller does between two moments at which another may come in. -/
namespace KrxAlpha

structure IssuedToken where
  accessToken : String
  expiresInSeconds : Option ℚ
  deriving DecidableEq

/-- Times are seconds of the epoch. -/
structure TokenRecord where
  accessToken : String
  issuedAt : ℚ
  expiresAt : Option ℚ
  generation : Int
  deriving DecidableEq

inductive TokenError where
  | lockTimeout (text : String)
  | throttled (text : String)
  | read (text : String)
  | issue (text : String)
  | write
  deriving DecidableEq

inductive TokenVendor where
  | ls | toss | dbsec | kiwoom
  deriving DecidableEq

inductive IssueThrottlePolicy where
  | wait | raise
  deriving DecidableEq

/-- A store as its constructor leaves it. -/
structure TokenStore where
  path : String
  vendor : TokenVendor
  lockTimeoutSeconds : ℚ
  expiryMarginSeconds : ℚ
  issueThrottlePolicy : IssueThrottlePolicy
  unknownExpiryMaxAgeSeconds : ℚ := 43200
  waits : 0 < lockTimeoutSeconds
  margin : 0 ≤ expiryMarginSeconds
  aged : 0 ≤ unknownExpiryMaxAgeSeconds
  deriving DecidableEq

def buildRecord (issued : IssuedToken) (previous : Option TokenRecord) (now : ℚ) : TokenRecord where
  accessToken := issued.accessToken
  issuedAt := now
  expiresAt := issued.expiresInSeconds.map (now + ·)
  generation := match previous with
    | some previous => previous.generation + 1
    | none => 1

def isUsable (record : TokenRecord) (now margin maxAge : ℚ) : Bool :=
  match record.expiresAt with
  | none => now - record.issuedAt < maxAge
  | some expiresAt => now < expiresAt - margin

def TokenStore.usable (store : TokenStore) (record : TokenRecord) (now : ℚ) : Bool :=
  isUsable record now store.expiryMarginSeconds store.unknownExpiryMaxAgeSeconds

/-- The token file: missing, not a record, or one that was written. -/
inductive TokenFile where
  | missing
  | broken (text : String)
  | written (record : TokenRecord)
  deriving DecidableEq

/-- Reading refuses a record without a token or with a generation before the first. -/
def TokenFile.read : TokenFile → Except TokenError (Option TokenRecord)
  | .missing => .ok none
  | .broken text => .error (.read text)
  | .written record =>
    if record.accessToken = "" ∨ record.generation < 1 then
      .error (.read "token record schema is invalid")
    else .ok (some record)

/-! ### The guard between two issuances -/

inductive GuardFile where
  | missing | unreadable | malformed
  | value (lastIssue : ℚ)
  deriving DecidableEq

def minIssueIntervalS : TokenVendor → ℚ
  | .dbsec => 61
  | _ => 0

def readGuardValue : GuardFile → Except TokenError (Option ℚ)
  | .missing => .ok none
  | .unreadable => .error (.read "token issuance guard is unreadable")
  | .malformed => .error (.read "token issuance guard is malformed")
  | .value lastIssue =>
    if lastIssue < 0 then .error (.read "token issuance guard is malformed") else .ok (some lastIssue)

def throttleDelaySeconds (vendor : TokenVendor) (guard : GuardFile) (nowEpoch : ℚ) :
    Except TokenError ℚ := do
  if minIssueIntervalS vendor ≤ 0 then return 0
  match ← readGuardValue guard with
  | none => return 0
  | some lastIssue =>
    let wait := lastIssue + minIssueIntervalS vendor - nowEpoch
    return if wait > 0 then wait else 0

/-- The clock is read before the wait and after it. -/
def TokenStore.guardBeforeIssue (store : TokenStore) (guard : GuardFile) (now later : ℚ) :
    Except TokenError GuardFile := do
  if minIssueIntervalS store.vendor ≤ 0 then return guard
  let wait ← throttleDelaySeconds store.vendor guard now
  if wait > 0 then
    if store.issueThrottlePolicy = .raise then
      throw (.throttled "token issuance throttled by host guard")
    if wait > store.lockTimeoutSeconds then
      throw (.throttled "token issuance throttled by host guard")
  return .value later

/-! ### Calls and what they do under the lock -/

inductive TokenRequest where
  | getOrIssue
  | replaceRejected (rejectedToken : String)
  deriving DecidableEq

structure TokenCall where
  store : TokenStore
  request : TokenRequest
  deriving DecidableEq

/-- The record a call returns without asking for a new one. -/
def TokenCall.accepts (call : TokenCall) (now : ℚ) (record : TokenRecord) : Bool :=
  match call.request with
  | .getOrIssue => call.store.usable record now
  | .replaceRejected rejectedToken =>
    record.accessToken ≠ rejectedToken && call.store.usable record now

/-- How far a call has come with the lock in its hands. From the guard on it knows the record it
has found and when it looked. -/
inductive LockedStage where
  | reading
  | guarding (lookedAt : ℚ) (cached : Option TokenRecord)
  | issuing (lookedAt : ℚ) (cached : Option TokenRecord)
  | publishing (lookedAt : ℚ) (cached : Option TokenRecord) (record : TokenRecord)
  | leaving (outcome : Except TokenError TokenRecord)

/-- The caller that has the lock. -/
structure TokenHolder where
  caller : Nat
  call : TokenCall
  stage : LockedStage

/-- A record put in place of the one the caller had found. -/
structure Issuance where
  call : TokenCall
  lookedAt : ℚ
  previous : Option TokenRecord
  record : TokenRecord

/-- The files, who waits for the lock and who has it, and what was asked, issued and answered. -/
structure TokenHost where
  file : TokenFile
  guardFile : GuardFile := .missing
  waiting : Nat → Option TokenCall := fun _ => none
  holder : Option TokenHolder := none
  calls : List TokenCall := []
  issued : List Issuance := []
  outcomes : List (TokenCall × Except TokenError TokenRecord) := []

inductive TokenStep where
  | getOrIssue (caller : Nat) (store : TokenStore) (now : ℚ)
  | replaceRejected (caller : Nat) (store : TokenStore) (rejectedToken : String)
  | lock (caller : Nat)
  | lockTimeout (caller : Nat)
  | look (now : ℚ)
  | guardBeforeIssue (now later : ℚ)
  | issue (answer : Except TokenError IssuedToken) (now : ℚ)
  | publish (written : Bool)
  | leave
  | die (caller : Nat)

namespace TokenHost

/-- A caller is inside one call at a time. -/
def busy (host : TokenHost) (caller : Nat) : Bool :=
  (host.waiting caller).isSome || host.holder.any (·.caller = caller)

/-- The caller stands in line for the lock. -/
def queue (host : TokenHost) (caller : Nat) (call : TokenCall) : TokenHost :=
  { host with waiting := Function.update host.waiting caller (some call) }

def finish (host : TokenHost) (call : TokenCall) (outcome : Except TokenError TokenRecord) : TokenHost :=
  { host with outcomes := host.outcomes ++ [(call, outcome)] }

def moveOn (host : TokenHost) (holder : TokenHolder) (stage : LockedStage) : TokenHost :=
  { host with holder := some { holder with stage } }

/-- The first look of `get_or_issue`, taken without the lock. -/
def lookUnlocked (host : TokenHost) (caller : Nat) (call : TokenCall) (now : ℚ) : TokenHost :=
  match host.file.read with
  | .error error => host.finish call (.error error)
  | .ok (some cached) =>
    if call.store.usable cached now then host.finish call (.ok cached) else host.queue caller call
  | .ok none => host.queue caller call

/-- The look under the lock. -/
def look (host : TokenHost) (holder : TokenHolder) (now : ℚ) : TokenHost :=
  match host.file.read with
  | .error error => host.moveOn holder (.leaving (.error error))
  | .ok (some cached) =>
    if holder.call.accepts now cached then host.moveOn holder (.leaving (.ok cached))
    else host.moveOn holder (.guarding now (some cached))
  | .ok none => host.moveOn holder (.guarding now none)

def passGuard (host : TokenHost) (holder : TokenHolder) (lookedAt : ℚ) (cached : Option TokenRecord)
    (now later : ℚ) : TokenHost :=
  match holder.call.store.guardBeforeIssue host.guardFile now later with
  | .error error => host.moveOn holder (.leaving (.error error))
  | .ok guardFile => { host.moveOn holder (.issuing lookedAt cached) with guardFile }

def issue (host : TokenHost) (holder : TokenHolder) (lookedAt : ℚ) (cached : Option TokenRecord)
    (answer : Except TokenError IssuedToken) (now : ℚ) : TokenHost :=
  match answer with
  | .error error => host.moveOn holder (.leaving (.error error))
  | .ok issued => host.moveOn holder (.publishing lookedAt cached (buildRecord issued cached now))

/-- The record is replaced in one piece, or it stays and the call fails. -/
def publish (host : TokenHost) (holder : TokenHolder) (lookedAt : ℚ) (cached : Option TokenRecord)
    (record : TokenRecord) (written : Bool) : TokenHost :=
  if written then
    { host.moveOn holder (.leaving (.ok record)) with
      file := .written record
      issued := host.issued ++ [{ call := holder.call, lookedAt, previous := cached, record }] }
  else host.moveOn holder (.leaving (.error .write))

/-- The step of the caller that has the lock. -/
def stepHolder (host : TokenHost) (holder : TokenHolder) : TokenStep → TokenHost
  | .look now =>
    match holder.stage with
    | .reading => host.look holder now
    | _ => host
  | .guardBeforeIssue now later =>
    match holder.stage with
    | .guarding lookedAt cached => host.passGuard holder lookedAt cached now later
    | _ => host
  | .issue answer now =>
    match holder.stage with
    | .issuing lookedAt cached => host.issue holder lookedAt cached answer now
    | _ => host
  | .publish written =>
    match holder.stage with
    | .publishing lookedAt cached record => host.publish holder lookedAt cached record written
    | _ => host
  | .leave =>
    match holder.stage with
    | .leaving outcome => { host.finish holder.call outcome with holder := none }
    | _ => host
  | _ => host

def step (host : TokenHost) : TokenStep → TokenHost
  | .getOrIssue caller store now =>
    if host.busy caller then host
    else
      let call := { store, request := .getOrIssue }
      { host with calls := host.calls ++ [call] }.lookUnlocked caller call now
  | .replaceRejected caller store rejectedToken =>
    if host.busy caller then host
    else
      let call := { store, request := .replaceRejected rejectedToken }
      { host with calls := host.calls ++ [call] }.queue caller call
  | .lock caller =>
    match host.waiting caller, host.holder with
    | some call, none =>
      { host with
        waiting := Function.update host.waiting caller none
        holder := some { caller, call, stage := .reading } }
    | _, _ => host
  | .lockTimeout caller =>
    match host.waiting caller, host.holder with
    | some call, some _ =>
      { host.finish call
          (.error (.lockTimeout ("token lock not acquired: " ++ call.store.path ++ ".lock"))) with
        waiting := Function.update host.waiting caller none }
    | _, _ => host
  | .die caller =>
    { host with
      waiting := Function.update host.waiting caller none
      holder := host.holder.filter (·.caller ≠ caller) }
  | inside =>
    match host.holder with
    | some holder => host.stepHolder holder inside
    | none => host

end TokenHost

end KrxAlpha
