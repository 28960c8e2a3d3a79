import Mathlib.Data.List.Basic

/-! The connection-slot ledger collector processes share. One file holds the leases
granted under a vendor's cap; every call takes the file's lock, drops the expired leases,
changes one and stores the whole list again, or fails and leaves the file as it was. -/
namespace KrxAlpha

inductive LeaseRole where
  | primary | standby
  deriving DecidableEq

/-- A lease as its holder has it; the token is the only proof of ownership. -/
structure Lease where
  vendor : String
  keyId : String
  owner : String
  role : LeaseRole
  token : String
  expiresNs : Int
  deriving DecidableEq

structure LeaseEntry where
  owner : String
  role : LeaseRole
  token : String
  expiresNs : Int
  grantedNs : Int
  preempt : Bool := false
  deriving DecidableEq

/-- The bounds are those the constructor checks. -/
structure WsLeaseLedger where
  vendor : String
  keyId : String
  cap : Nat
  ttlNs : Int
  capable : 1 ≤ cap
  lasting : 0 < ttlNs

/-- The stored payload. A standby block is left behind only when a corrupt file was set
aside. -/
structure LeaseFile where
  leases : List LeaseEntry := []
  standbyBlockedUntilNs : Int := 0
  deriving DecidableEq

inductive LeaseDenial where
  | quarantine | preemptPending | capReached | standbyNotPromotable
  | ledgerUnavailable | ledgerUnwritable
  deriving DecidableEq

inductive LeaseOp where
  | acquire (owner : String) (role : LeaseRole)
  | renew (token : String)
  | release (token : String)
  | promote (token : String)
  deriving DecidableEq

inductive LeaseReply where
  | granted (lease : Lease)
  | renewed (ok : Bool)
  | released
  | unavailable (reason : LeaseDenial)
  deriving DecidableEq

/-- One call under the lock: the clock when it starts and when it stores, the token drawn
for a new lease, and whether the file could be read and replaced. -/
structure LeaseCall where
  op : LeaseOp
  now : Int
  storedAt : Int
  drawn : String
  readable : Bool := true
  writable : Bool := true
  deriving DecidableEq

/-- Change the first entry that passes the test, the entry object a search found. -/
def changeFirst (test : LeaseEntry → Bool) (change : LeaseEntry → LeaseEntry) :
    List LeaseEntry → List LeaseEntry
  | [] => []
  | entry :: rest => if test entry then change entry :: rest else entry :: changeFirst test change rest

namespace WsLeaseLedger

variable (ledger : WsLeaseLedger)

def dropExpired (entries : List LeaseEntry) (now : Int) : List LeaseEntry :=
  entries.filter (now < ·.expiresNs)

def lease (entry : LeaseEntry) : Lease :=
  ⟨ledger.vendor, ledger.keyId, entry.owner, entry.role, entry.token, entry.expiresNs⟩

/-- One step of the search for the oldest entry, the first of them on ties. -/
def older (found : Option LeaseEntry) (entry : LeaseEntry) : Option LeaseEntry :=
  some (found.elim entry fun best => if entry.grantedNs < best.grantedNs then entry else best)

def oldestStandby (entries : List LeaseEntry) : Option LeaseEntry :=
  (entries.filter (·.role = .standby)).foldl older none

def acquire (call : LeaseCall) (owner : String) (role : LeaseRole) (blockedUntilNs : Int)
    (entries : List LeaseEntry) : List LeaseEntry × LeaseReply :=
  if role = .standby ∧ call.now < blockedUntilNs then (entries, .unavailable .quarantine)
  else if entries.length < ledger.cap then
    let entry : LeaseEntry := ⟨owner, role, call.drawn, call.now + ledger.ttlNs, call.now, false⟩
    (entries ++ [entry], .granted (ledger.lease entry))
  else
    match role, oldestStandby entries with
    | .primary, some victim =>
      if entries.any fun entry => entry.role = .standby ∧ entry.preempt then
        (entries, .unavailable .preemptPending)
      else
        (changeFirst (fun entry => entry.role = .standby ∧ entry.grantedNs = victim.grantedNs)
          ({ · with preempt := true }) entries, .unavailable .preemptPending)
    | _, _ => (entries, .unavailable .capReached)

def find (entries : List LeaseEntry) (token : String) : Option LeaseEntry :=
  entries.find? (·.token = token)

def renew (call : LeaseCall) (token : String) (entries : List LeaseEntry) :
    List LeaseEntry × LeaseReply :=
  match find entries token with
  | none => (entries, .renewed false)
  | some entry =>
    if entry.preempt then (entries, .renewed false)
    else (changeFirst (·.token = token) ({ · with expiresNs := call.now + ledger.ttlNs }) entries,
      .renewed true)

def release (token : String) (entries : List LeaseEntry) : List LeaseEntry × LeaseReply :=
  (entries.eraseP (·.token = token), .released)

def promote (call : LeaseCall) (token : String) (entries : List LeaseEntry) :
    List LeaseEntry × LeaseReply :=
  match find entries token with
  | none => (entries, .unavailable .standbyNotPromotable)
  | some entry =>
    if entry.preempt ∨ entry.role ≠ .standby then (entries, .unavailable .standbyNotPromotable)
    else
      let raised := { entry with role := .primary, expiresNs := call.now + ledger.ttlNs }
      (changeFirst (·.token = token)
        ({ · with role := .primary, expiresNs := call.now + ledger.ttlNs }) entries,
        .granted (ledger.lease raised))

/-- The list the call stores and the answer it gives once that is stored. -/
def apply (call : LeaseCall) (blockedUntilNs : Int) (entries : List LeaseEntry) :
    List LeaseEntry × LeaseReply :=
  match call.op with
  | .acquire owner role => ledger.acquire call owner role blockedUntilNs entries
  | .renew token => ledger.renew call token entries
  | .release token => release token entries
  | .promote token => ledger.promote call token entries

/-- One locked read-modify-write. -/
def serve (file : LeaseFile) (call : LeaseCall) : LeaseFile × LeaseReply :=
  if ¬ call.readable then (file, .unavailable .ledgerUnavailable)
  else
    let (entries, reply) := ledger.apply call file.standbyBlockedUntilNs
      (dropExpired file.leases call.now)
    if call.writable then
      ({ leases := entries
         standbyBlockedUntilNs :=
          if call.storedAt < file.standbyBlockedUntilNs then file.standbyBlockedUntilNs else 0 },
        reply)
    else (file, .unavailable .ledgerUnwritable)

end WsLeaseLedger
end KrxAlpha
