import Mathlib.Data.List.Dedup
import KrxAlpha.Offload

/-! The end-of-day storage sequence: normalize, offload and verify, prune the
journal with the verified set, then purge what the archive supersedes from the
remote. Everything the run learns from outside is a field of its inputs: the
free disk, the normalizer's runs, the remote's listings and exit codes. -/
namespace KrxAlpha

structure RepairSettings where
  holdEnabled : Bool
  holdMaxExtraDays : Int
  gateVendors : List String
  extraDaysBound : 0 ≤ holdMaxExtraDays ∧ holdMaxExtraDays ≤ 10

/-- `audited_tick_vendor`: the path rebuilt from the parsed key has to be the path
itself, so only the plain date form gets through. -/
def auditedTickVendor (gateVendors : List String) (rel : RelPath) : Option String :=
  match rel.parts with
  | [vendor, venue, session, stream, dtPart] =>
    if vendor ∉ gateVendors then none
    else match fullmatchDate dtPart with
      | .ok (some _) =>
        if (venue, session, stream) = ("krx", "regular", "H0STCNT0") then some vendor else none
      | _ => none
  | _ => none

/-- `l0_hold_reason`, where `pending` is the unrepaired state of the partition's day. -/
def l0HoldReason (settings : RepairSettings) (pending : Option String) (cutoff : Int)
    (rel : RelPath) (day : Nat) : Option String :=
  if settings.holdEnabled then
    match auditedTickVendor settings.gateVendors rel, pending with
    | some vendor, some state =>
      if settings.holdMaxExtraDays < cutoff - day then none else some s!"{vendor}:{state}"
    | _, _ => none
  else none

/-- `_repair_hold_for`. -/
def repairHoldFor (settings : RepairSettings) (pending : RelPath → Option String) (cutoff : Int)
    (rel : RelPath) : Option String :=
  match fullmatchDate rel.name with
  | .ok (some day) => l0HoldReason settings (pending rel) cutoff rel day
  | _ => none

/-- How the remote side of the offload went: no settings, an error while syncing or
listing, or the two listings of `l1` that follow the sync, as printed. -/
inductive OffloadCalls where
  | settingsMissing
  | failed (err : Error)
  | listed (uploaded : Nat) (entries names : List Offload.LsEntry)

/-- The inputs of one run. The repair gate asks for the state of a partition's day at
most once in a run, so `pendingRepair` is a function of the partition. -/
structure Housekeeping where
  refDay : Int
  journalRetainDays : Int
  archiveRetainDays : Int
  repair : Option RepairSettings
  pendingRepair : RelPath → Option String
  diskOk : Bool
  firstNormalizer : RelPath → NormalizeCall
  secondNormalizer : RelPath → NormalizeCall
  offload : OffloadCalls
  archiver : Bool
  probe : String → Int
  purge : String → Int

/-- What became of one superseded directory. -/
inductive PurgeEnd where
  | skippedLocalPresent | skippedAbsent | probeFailed | purgeFailed | purged
  deriving DecidableEq

/-- The purge command was sent to the remote. -/
def PurgeEnd.issued : PurgeEnd → Bool
  | .purgeFailed | .purged => true
  | _ => false

/-- `EodOffloadResult`, or no verified set when the offload raised. -/
structure Offloaded where
  archive : Dict RelPath L1File
  uploaded : Nat := 0
  purged : Nat := 0
  verified : Option (List String)

structure EodHousekeeping where
  deleted : Nat
  uploaded : Nat
  purged : Nat
  maintenanceOk : Bool
  offloadOk : Bool
  held : Nat

/-- The end of a run: the trees, what happened to the partitions, what became of the
remote directories, and the value returned or the error raised. -/
structure HousekeepingRun where
  storage : Storage
  events : List PruneEvent
  purges : List (String × PurgeEnd)
  result : Except Error EodHousekeeping

namespace Housekeeping

def cutoff (env : Housekeeping) : Int := env.refDay - env.journalRetainDays

def archiveCutoff (env : Housekeeping) : Int := env.refDay - env.archiveRetainDays

def hold (env : Housekeeping) : Option (RelPath → Option String) :=
  match env.repair with
  | none => none
  | some settings =>
    if settings.holdEnabled then some (repairHoldFor settings env.pendingRepair env.cutoff)
    else none

def firstArgs (env : Housekeeping) : PruneArgs where
  cutoff := env.cutoff
  verifiedRemoteL1 := none
  normalize := true
  reuseFreshL1 := false
  hold := env.hold
  normalizer := env.firstNormalizer

def secondArgs (env : Housekeeping) (verified : List String) : PruneArgs where
  cutoff := env.cutoff
  verifiedRemoteL1 := some verified
  normalize := env.diskOk
  reuseFreshL1 := true
  hold := env.hold
  normalizer := env.secondNormalizer

/-- The first maintenance pass, left out on a low disk. -/
def firstPass (env : Housekeeping) (storage : Storage) :
    Swept Storage (List RelPath) PruneEvent Error :=
  if env.diskOk then pruneOldJournals env.firstArgs storage
  else ⟨storage, storage.journal.keys, [], none⟩

/-- `run_eod_offload` behind the syncs. -/
def runEodOffload (env : Housekeeping) (storage : Storage) : Offloaded :=
  match env.offload with
  | .settingsMissing => { archive := storage.archive, verified := some [] }
  | .failed _ => { archive := storage.archive, verified := none }
  | .listed uploaded entries names =>
    match Offload.objectsIn "l1/" (Offload.reframe "l1" entries) with
    | .error _ => { archive := storage.archive, verified := none }
    | .ok objects =>
      let files := Offload.filesIn "l1/" (Offload.reframe "l1" names)
      let archived := pruneLocalL1 env.archiveCutoff (Offload.confirmed (some storage.journal) files)
        storage.archive
      match archived.stop with
      | some _ => { archive := archived.state, verified := none }
      | none =>
        { archive := archived.state, uploaded, purged := archived.emitted.length
          verified := some (verifiedPaths storage.archive objects) }

/-- One directory of `purge_superseded_l0`. -/
def purgeDir (env : Housekeeping) (journal : Dict RelPath (List Int)) (dir : String) : PurgeEnd :=
  if dirExists journal dir then .skippedLocalPresent
  else if env.probe dir = 3 then .skippedAbsent
  else if env.probe dir ≠ 0 then .probeFailed
  else if env.purge dir ≠ 0 then .purgeFailed
  else .purged

/-- `run_eod_remote_l0_purge`: quarantined partitions keep their remote copy. -/
def runEodRemoteL0Purge (env : Housekeeping) (storage : Storage) (verified : List String) :
    List (String × PurgeEnd) :=
  if env.archiver then
    let kept := verified.filter fun path =>
      (l0PartitionForL1 path).all fun dir => !dirExists storage.quarantine dir
    (kept.filterMap l0PartitionForL1).dedup.map fun dir => (dir, env.purgeDir storage.journal dir)
  else []

/-- The errors of a pass that the run logs and survives. -/
def survives : Error → Bool
  | .valueError _ => false
  | _ => true

/-- `verified - invalidated_remote_l1 - held`. -/
def remaining (stats : PruneStats) (verified : List String) : List String :=
  verified.filter fun path => path ∉ stats.invalidatedRemoteL1 ∧ path ∉ stats.held

/-- The second pass and the purge, behind a completed offload. -/
def finish (env : Housekeeping) (before : PruneStats) (ok : Bool) (events : List PruneEvent)
    (storage : Storage) (offload : Offloaded) (verified : List String) : HousekeepingRun :=
  let second := pruneOldJournals (env.secondArgs verified) storage
  let stats := pruneStats second.emitted
  match second.stop with
  | some err =>
    { storage := second.state
      events := events ++ second.emitted
      purges := []
      result :=
        if survives err then
          .ok ⟨before.deleted, offload.uploaded, offload.purged, false, true,
            before.held.dedup.length⟩
        else .error err }
  | none =>
    { storage := second.state
      events := events ++ second.emitted
      purges := env.runEodRemoteL0Purge second.state (remaining stats verified)
      result :=
        .ok ⟨before.deleted + stats.deleted, offload.uploaded, offload.purged,
          ok && stats.failed == 0, true, (before.held ++ stats.held).dedup.length⟩ }

/-- `_run_eod_housekeeping`. -/
def run (env : Housekeeping) (storage : Storage) : HousekeepingRun :=
  let first := env.firstPass storage
  let before := if first.stop.isSome then {} else pruneStats first.emitted
  let ok := env.diskOk && first.stop.isNone && before.failed == 0
  match first.stop.filter (!survives ·) with
  | some err => ⟨first.state, first.emitted, [], .error err⟩
  | none =>
    let offload := env.runEodOffload first.state
    let storage := { first.state with archive := offload.archive }
    match offload.verified with
    | none =>
      ⟨storage, first.emitted, [], .ok ⟨before.deleted, 0, 0, ok, false, before.held.dedup.length⟩⟩
    | some verified => env.finish before ok first.emitted storage offload verified

end Housekeeping

end KrxAlpha
