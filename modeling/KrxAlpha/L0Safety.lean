import KrxAlpha.JournalPruning
import KrxAlpha.OffloadGate

/-! Safety of the end-of-day deletions. A partition of the local journal is
removed only behind the gate of the second pass, with the verified set of the
same run; what the two halves of that pass check is compared with what makes a
deletion safe, and the remote purge with what the repair gate answered. -/
namespace KrxAlpha
open List

namespace Housekeeping

/-- The verified set of a run that gets as far as its second pass. -/
def verifiedSet (env : Housekeeping) (storage : Storage) : Option (List String) :=
  match (env.firstPass storage).stop.filter (!survives ·) with
  | some _ => none
  | none => (env.runEodOffload (env.firstPass storage).state).verified

/-- The trees that the second pass starts from. -/
def secondStorage (env : Housekeeping) (storage : Storage) : Storage :=
  { (env.firstPass storage).state with
    archive := (env.runEodOffload (env.firstPass storage).state).archive }

def secondPass (env : Housekeeping) (storage : Storage) (verified : List String) :
    Swept Storage (List RelPath) PruneEvent Error :=
  pruneOldJournals (env.secondArgs verified) (env.secondStorage storage)

section Shape
variable {env : Housekeeping} {storage : Storage}

theorem run_short (short : env.verifiedSet storage = none) :
    (env.run storage).events = (env.firstPass storage).emitted := by
  unfold verifiedSet at short
  unfold run
  split at short
  · rename_i fatal
    simp [fatal]
  · rename_i calm
    simp [calm, short]

theorem run_full (full : env.verifiedSet storage = some verified) :
    (env.run storage).events =
        (env.firstPass storage).emitted ++ (env.secondPass storage verified).emitted ∧
      (env.run storage).purges = match (env.secondPass storage verified).stop with
        | some _ => []
        | none =>
          env.runEodRemoteL0Purge (env.secondPass storage verified).state
            (remaining (pruneStats (env.secondPass storage verified).emitted) verified) := by
  have finished : ∃ before ok, env.run storage = env.finish before ok (env.firstPass storage).emitted
      (env.secondStorage storage) (env.runEodOffload (env.firstPass storage).state) verified := by
    unfold verifiedSet at full
    unfold run
    split at full
    · cases full
    · rename_i calm
      simp only [calm, full]
      exact ⟨_, _, rfl⟩
  obtain ⟨before, ok, same⟩ := finished
  rw [same]
  simp only [finish, secondPass]
  cases (pruneOldJournals (env.secondArgs verified) (env.secondStorage storage)).stop <;>
    exact ⟨rfl, rfl⟩

end Shape

/-- The offload found the partition's archive file remotely, and kept it locally. -/
def VerifiedL1 (env : Housekeeping) (storage : Storage) (part : RelPath) (file : L1File) : Prop :=
  ∃ uploaded entries names objects, env.offload = .listed uploaded entries names ∧
    Offload.objectsIn "l1/" (Offload.reframe "l1" entries) = .ok objects ∧
    (∀ rel ∈ storage.archive.keys, (archiveDate rel).isOk) ∧
    storage.l1Of part = some file ∧
    remoteMatches (objects.get? (l1PathOf part)) file = true ∧
    droppedL1 env.archiveCutoff (Offload.confirmed (some storage.journal)
      (Offload.filesIn "l1/" (Offload.reframe "l1" names))) (l1RelpathForL0Partition part) = false

/-- The listing that verifies shows the file under its path and no copy that differs. -/
def Listed (env : Housekeeping) (part : RelPath) (file : L1File) : Prop :=
  ∃ uploaded entries names, env.offload = .listed uploaded entries names ∧
    Offload.Copies (entries.map fun entry => { entry with path := Offload.fullPath "l1" entry.path })
      (l1PathOf part) file

/-- The listing has a path that seems to begin with `l1`, so that it is taken for one of the remote
root, and it does not show the file under its path. -/
def Misread (env : Housekeeping) (part : RelPath) (file : L1File) : Prop :=
  (∃ uploaded entries names, env.offload = .listed uploaded entries names ∧
    entries.any (·.isFull "l1")) ∧ ¬ env.Listed part file

section Verified
variable {env : Housekeeping} {storage : Storage} {part : RelPath} {file : L1File}

theorem verified_l1_iff : env.VerifiedL1 storage part file ↔
    ∃ verified, (env.runEodOffload storage).verified = some verified ∧ l1PathOf part ∈ verified ∧
      (env.runEodOffload storage).archive.get? (l1RelpathForL0Partition part) = some file := by
  unfold VerifiedL1 runEodOffload
  cases env.offload with
  | settingsMissing => simp
  | failed err => simp
  | listed uploaded entries names =>
    cases gathered : Offload.objectsIn "l1/" (Offload.reframe "l1" entries) with
    | error err => simp [gathered]
    | ok objects =>
    cases stopped : (pruneLocalL1 env.archiveCutoff (Offload.confirmed (some storage.journal)
        (Offload.filesIn "l1/" (Offload.reframe "l1" names))) storage.archive).stop with
    | some err =>
      have undated : ¬ ∀ rel ∈ storage.archive.keys, (archiveDate rel).isOk :=
        fun dated => by simp [(prune_local_l1_stop storage.archive).mpr dated] at stopped
      simp [gathered, stopped, undated]
    | none =>
      have dated := (prune_local_l1_stop storage.archive).mp stopped
      simp only [gathered, stopped, prune_local_l1_get?, dated_files_all dated]
      constructor
      · rintro ⟨_, _, _, _, same, own, _, found, matched, kept⟩
        cases same
        cases gathered.symm.trans own
        refine ⟨_, rfl, mem_verified_paths.mpr ⟨file, found, matched⟩, ?_⟩
        rw [if_neg (by simp [kept])]
        exact found
      · rintro ⟨_, same, member, found⟩
        obtain rfl := Option.some.inj same
        obtain ⟨listed, before, matched⟩ := mem_verified_paths.mp member
        split_ifs at found with dropped
        obtain rfl := Option.some.inj (before.symm.trans found)
        have inside := Dict.mem_keys_of_get? before
        exact ⟨_, _, _, _, rfl, gathered, dated, before, matched, by simpa [inside] using dropped⟩

/-- What was verified is listed, unless the listing was misread. -/
theorem VerifiedL1.listed (verified : env.VerifiedL1 storage part file)
    (clear : ¬ env.Misread part file) : env.Listed part file := by
  obtain ⟨uploaded, entries, names, objects, calls, gathered, _, _, matched, _⟩ := verified
  obtain ⟨-, copies⟩ := (Offload.objects_match_iff gathered _ _).mp matched
  cases full : entries.any (·.isFull "l1") with
  | true => exact not_not.mp (not_and.mp clear ⟨uploaded, entries, names, calls, full⟩)
  | false =>
    rw [Offload.reframe, full, if_neg Bool.false_ne_true] at copies
    exact ⟨uploaded, entries, names, calls, copies⟩

end Verified

section Passes
variable {env : Housekeeping} {storage : Storage} {verified : List String} {part : RelPath}
  {event : PruneEvent}

/-- The first pass deletes nothing and asks nobody. -/
theorem first_ungated (happened : event ∈ (env.firstPass storage).emitted) :
    event.gated = false := by
  unfold firstPass at happened
  split at happened
  · obtain ⟨part, _, _, worked⟩ := mem_prune_events.mp happened
    by_contra gated
    have opened := (gate_opened worked (by simpa using gated)).verified
    cases opened
  · cases happened

/-- Whatever passes the gate in a run does so in its second pass. -/
theorem gated_in_second (happened : event ∈ (env.run storage).events)
    (gated : event.gated = true) : ∃ verified, env.verifiedSet storage = some verified ∧
      event ∈ (env.secondPass storage verified).emitted := by
  have later : event ∉ (env.firstPass storage).emitted := fun early => by
    rw [first_ungated early] at gated
    cases gated
  cases set : env.verifiedSet storage with
  | none =>
    rw [run_short set] at happened
    exact absurd happened later
  | some verified =>
    rw [(run_full set).1] at happened
    exact ⟨verified, rfl, (mem_append.mp happened).resolve_left later⟩

section

variable (set : env.verifiedSet storage = some verified)
include set

theorem in_second_in_run (happened : event ∈ (env.secondPass storage verified).emitted) :
    event ∈ (env.run storage).events := by
  rw [(run_full set).1]
  exact mem_append_right _ happened

theorem offload_of_verified_set :
    (env.runEodOffload (env.firstPass storage).state).verified = some verified := by
  unfold verifiedSet at set
  split at set
  · cases set
  · exact set

/-- The archive file that the second pass finds behind a verified path is the one the
offload verified. -/
theorem second_verified (unlocked : (env.secondArgs verified).verified part = true)
    (found : (env.secondStorage storage).l1Of part = some file) :
    env.VerifiedL1 (env.firstPass storage).state part file := by
  refine verified_l1_iff.mpr ⟨verified, offload_of_verified_set set, ?_, found⟩
  simpa [PruneArgs.verified, secondArgs] using unlocked

end

end Passes

/-- On a low disk, the partitions the run deletes: expired ones whose archive file the
offload verified, whatever else is known about them. -/
structure LowDiskDeletes (env : Housekeeping) (storage : Storage) (part : RelPath)
    (file : L1File) : Prop where
  low : env.diskOk = false
  walked : part ∈ datedParts storage
  expired : expiredAt env.cutoff part = true
  verified : env.VerifiedL1 storage part file

section LowDisk
variable {env : Housekeeping} {storage : Storage} {verified : List String}
  (low : env.diskOk = false)
include low

private theorem low_first : (env.firstPass storage).state = storage ∧
    env.verifiedSet storage = (env.runEodOffload storage).verified := by
  simp [verifiedSet, firstPass, low]

theorem low_second : env.secondStorage storage =
    { storage with archive := (env.runEodOffload storage).archive } := by
  simp [secondStorage, (low_first low).1]

private theorem low_reached : (env.secondArgs verified).reached (env.secondStorage storage) =
    datedParts storage := by
  rw [low_disk_reached low, low_second low]
  rfl

section

variable (set : env.verifiedSet storage = some verified)
include set

theorem low_disk_work (deletes : env.LowDiskDeletes storage part file) :
    (env.secondArgs verified).prunePart (env.secondStorage storage) part =
      removePart (env.secondStorage storage) part ((env.secondArgs verified).consult part).2 := by
  obtain ⟨all, same, member, found⟩ := verified_l1_iff.mp deletes.verified
  rw [(low_first low).2] at set
  obtain rfl := Option.some.inj (set.symm.trans same)
  have unlocked : ((env.secondStorage storage).l1Of part).isSome ∧
      (env.secondArgs verified).verified part = true := by
    rw [low_second low]
    exact ⟨by rw [Storage.l1Of, found]; rfl, by simpa [PruneArgs.verified, secondArgs] using member⟩
  rw [low_disk_part low, if_pos unlocked]

/-- The events of a second pass on a low disk, partition by partition. -/
theorem low_disk_events (event : PruneEvent) :
    event ∈ (env.secondPass storage verified).emitted ↔
      ∃ part file, env.LowDiskDeletes storage part file ∧
        event ∈ (removePart (env.secondStorage storage) part
          ((env.secondArgs verified).consult part).2).events := by
  rw [secondPass, mem_prune_events, low_reached low]
  constructor
  · rintro ⟨part, reached, expired, happened⟩
    rw [low_disk_part low] at happened
    split at happened
    · rename_i unlocked
      obtain ⟨file, found⟩ := Option.isSome_iff_exists.mp unlocked.1
      refine ⟨part, file, ⟨low, reached, expired, ?_⟩, happened⟩
      have behind := second_verified set unlocked.2 found
      rwa [(low_first low).1] at behind
    · cases happened
  · rintro ⟨part, file, deletes, happened⟩
    refine ⟨part, deletes.walked, deletes.expired, ?_⟩
    rw [low_disk_work low set deletes]
    exact happened

theorem low_disk_gone (deletes : env.LowDiskDeletes storage part file) :
    (env.secondPass storage verified).state.journal.contains part = false := by
  have walked : part ∈ (env.secondArgs verified).reached (env.secondStorage storage) := by
    rw [low_reached low]
    exact deletes.walked
  have left := prune_view walked deletes.expired
  rw [low_disk_work low set deletes] at left
  have absent := congrArg Prod.fst left
  simp only [Storage.view, removePart, Dict.get?_erase, if_true] at absent
  rw [Dict.contains, secondPass, absent]
  rfl

end

theorem low_disk_runs (deletes : env.LowDiskDeletes storage part file) :
    ∃ verified, env.verifiedSet storage = some verified ∧ l1PathOf part ∈ verified ∧
      (env.secondStorage storage).l1Of part = some file := by
  obtain ⟨verified, same, member, found⟩ := verified_l1_iff.mp deletes.verified
  refine ⟨verified, (low_first low).2.trans same, member, ?_⟩
  rw [low_second low]
  exact found

end LowDisk

/-- On a healthy disk, the partitions the run deletes: the second pass gets to them, they are
expired and not held, and their archive file was verified and holds all their records. -/
structure FreshDeletes (env : Housekeeping) (storage : Storage) (part : RelPath)
    (file : L1File) : Prop where
  disk : env.diskOk = true
  walked : ∃ verified, env.verifiedSet storage = some verified ∧
    part ∈ (env.secondArgs verified).reached (env.secondStorage storage)
  expired : expiredAt env.cutoff part = true
  verified : env.VerifiedL1 (env.firstPass storage).state part file
  reusable : (reusableL1Rows ((env.firstPass storage).state.filesOf part) (some file)).isSome
  unheld : env.hold.bind (· part) = none

section Fresh
variable {env : Housekeeping} {storage : Storage} {verified : List String} {part : RelPath}
  {file : L1File}

private theorem consult_answer :
    ((env.secondArgs verified).consult part).1 = env.hold.bind (· part) := by
  unfold PruneArgs.consult secondArgs
  cases env.hold <;> rfl

theorem fresh_disk_removes (deletes : env.FreshDeletes storage part file) :
    ∃ files, .removed part files (some file) ∈ (env.run storage).events := by
  obtain ⟨verified, set, walked⟩ := deletes.walked
  obtain ⟨all, same, member, found⟩ := verified_l1_iff.mp deletes.verified
  obtain rfl := Option.some.inj ((offload_of_verified_set set).symm.trans same)
  have l1 : (env.secondStorage storage).l1Of part = some file := found
  have unlocked : (env.secondArgs verified).verified part = true := by
    simpa [PruneArgs.verified, secondArgs] using member
  obtain ⟨count, reusable⟩ := Option.isSome_iff_exists.mp deletes.reusable
  refine ⟨(env.secondStorage storage).filesOf part, in_second_in_run set
    (mem_prune_events.mpr ⟨part, walked, deletes.expired, ?_⟩)⟩
  have normalize : (env.secondArgs verified).normalize = true := deletes.disk
  have fresh : (env.secondArgs verified).reuseFreshL1 = true := rfl
  have rows : reusableL1Rows ((env.secondStorage storage).filesOf part)
    ((env.secondStorage storage).l1Of part) = some count := by
      rw [l1]
      exact reusable
  have answer : ¬ (((env.secondArgs verified).consult part).1.isSome = true) := by
    simp [consult_answer, deletes.unheld]
  simp only [PruneArgs.prunePart, normalize, fresh, if_true, rows, PruneArgs.release, unlocked]
  rw [if_neg answer, removePart, l1]
  exact mem_append_right _ (mem_singleton_self _)

end Fresh

/-- The data of a removed partition is safe elsewhere: all remote copies of its archive
file are that file, and no file of the partition is newer. -/
def SafeElsewhere (env : Housekeeping) (part : RelPath) (files : List Int) (l1 : Option L1File) :
    Prop :=
  ∃ file, l1 = some file ∧ env.Listed part file ∧ ∀ stamp ∈ files, stamp ≤ file.mtimeNs

private theorem removed_here {env : Housekeeping}
    (gone : .removed removed files l1 ∈ (removePart storage part
      ((env.secondArgs verified).consult part).2).events) :
    removed = part ∧ files = storage.filesOf part ∧ l1 = storage.l1Of part := by
  rcases mem_append.mp gone with asked | last
  · cases consult_events asked
  · simpa using last

/-- What a healthy disk removes is what `FreshDeletes` says, and no file of it is newer. -/
private theorem fresh_removal {env : Housekeeping} (disk : env.diskOk = true)
    (set : env.verifiedSet storage = some verified)
    (happened : .removed part files l1 ∈ (env.secondPass storage verified).emitted) :
    ∃ file, l1 = some file ∧ env.FreshDeletes storage part file ∧
      ∀ stamp ∈ files, stamp ≤ file.mtimeNs := by
  obtain ⟨worked, reached, expired, within⟩ := mem_prune_events.mp happened
  cases gate_opened within rfl with
  | fresh count reusable gate =>
    obtain ⟨rfl, rfl, rfl⟩ := release_removed gate
    obtain ⟨file, found, newest⟩ := reusable_l1_rows_fresh reusable
    rw [found] at reusable
    refine ⟨file, found, ⟨disk, ⟨verified, set, reached⟩, expired,
      second_verified set (release_verified gate) found, Option.isSome_iff_exists.mpr ⟨count, reusable⟩,
      ?_⟩, newest⟩
    unfold PruneArgs.release at gate
    split_ifs at gate with unlocked waits
    · rcases mem_append.mp gate with asked | held
      · cases consult_events asked
      · simp at held
    · rwa [consult_answer, Option.not_isSome_iff_eq_none] at waits
    · cases gate
  | rebuilt stale _ _ => cases stale
  | lowDisk low _ _ _ =>
    rw [secondArgs, disk] at low
    cases low

end Housekeeping

namespace Sample

/-- A partition that the repair gate watches, and the archive file made from it. -/
def tickPart : RelPath where
  parts := ["ls", "krx", "regular", "H0STCNT0", "dt=2026-09-01"]
  nonempty := by decide
  plain := by decide

def tickL1 : L1File := ⟨10, "d41d8cd9", 100, some 5⟩

def trees (stamps : List Int) : Storage where
  journal := Dict.ofList [(tickPart, stamps)]
  archive := Dict.ofList [(l1RelpathForL0Partition tickPart, tickL1)]
  quarantine := ∅

/-- The name of the file in a listing of `l1`. -/
def tickName : String := "ls/krx/regular/H0STCNT0/dt=2026-09-01.parquet"

def night (diskOk : Bool) (pending : Option String) : Housekeeping where
  refDay := toOrdinal 2026 9 11
  journalRetainDays := 3
  archiveRetainDays := 30
  repair := some ⟨true, 7, ["ls"], by decide⟩
  pendingRepair := fun _ => pending
  diskOk
  firstNormalizer := fun _ => ⟨.workerCrash, none⟩
  secondNormalizer := fun _ => ⟨.workerCrash, none⟩
  offload := .listed 0 [⟨tickName, false, some 10, some "d41d8cd9"⟩] [⟨tickName, false, some 10, none⟩]
  archiver := true
  probe := fun _ => 0
  purge := fun _ => 0

end Sample

open Sample

/-- A directory called `l1` inside `l1` holds the file's bytes, and other bytes stand under the
file's own path; the partition goes on a healthy disk all the same. -/
theorem nested_copy_removes_l0 :
    ∃ env storage part files l1, env.diskOk = true ∧
      .removed part files l1 ∈ (Housekeeping.run env storage).events ∧
      ¬ env.SafeElsewhere part files l1 := by
  refine ⟨{ night true none with
    offload := .listed 0 [⟨tickName, false, some 9, some "0cc175b9"⟩,
      ⟨"l1/" ++ tickName, false, some 10, some "d41d8cd9"⟩] [⟨tickName, false, some 9, none⟩] },
    trees [90], tickPart, [90], some tickL1, rfl, by decide +kernel, ?_⟩
  rintro ⟨_, same, ⟨_, _, _, listed, _, copies⟩, _⟩
  cases same
  cases listed
  have other := copies ⟨"l1/" ++ tickName, false, some 9, some "0cc175b9"⟩ (by decide +kernel) rfl
    (by decide +kernel)
  exact absurd other.1 (by decide)

namespace Housekeeping

section Purge
variable {env : Housekeeping} {storage : Storage} {part : RelPath}

private theorem expired_named (expired : expiredAt limit part = true) :
    ∃ iso, datedHead part.name.toList = some (iso, []) := by
  unfold expiredAt fullmatchDate at expired
  split at expired
  · rename_i found
    split at found
    · rename_i iso named
      exact ⟨iso, named⟩
    · cases found
  · cases expired

theorem dir_exists_iff : dirExists tree (l0RepoDir part) = true ↔ tree.contains part = true := by
  rw [dirExists, any_eq_true, Dict.contains, Option.isSome_iff_ne_none, Ne,
    Dict.get?_eq_none, not_not]
  constructor
  · rintro ⟨other, member, same⟩
    exact l0_repo_dir_injective (beq_iff_eq.mp same) ▸ member
  · exact fun member => ⟨part, member, beq_self_eq_true _⟩

/-- The purge visits the directory of a dated partition only for the partition's own path. -/
theorem mem_purges (dated : expiredAt limit part = true) :
    (l0RepoDir part, outcome) ∈ env.runEodRemoteL0Purge storage verified ↔
      env.archiver = true ∧ l1PathOf part ∈ verified ∧
      l0PartitionForL1 (l1PathOf part) = some (l0RepoDir part) ∧
      storage.quarantine.contains part = false ∧
      outcome = env.purgeDir storage.journal (l0RepoDir part) := by
  unfold runEodRemoteL0Purge
  split
  · rename_i available
    simp only [mem_map, mem_dedup, mem_filterMap, mem_filter, Prod.mk.injEq]
    constructor
    · rintro ⟨_, ⟨path, ⟨member, kept⟩, found⟩, rfl, rfl⟩
      obtain ⟨iso, named⟩ := expired_named dated
      obtain rfl := l0_partition_for_l1_own named found
      rw [found, Option.all_some, Bool.not_eq_true', ← Bool.not_eq_true, dir_exists_iff,
        Bool.not_eq_true] at kept
      exact ⟨available, member, found, kept, rfl⟩
    · rintro ⟨_, member, found, kept, rfl⟩
      refine ⟨_, ⟨l1PathOf part, ⟨member, ?_⟩, found⟩, rfl, rfl⟩
      rw [found, Option.all_some, Bool.not_eq_true', ← Bool.not_eq_true, dir_exists_iff,
        Bool.not_eq_true]
      exact kept
  · rename_i missing
    simp [missing]

theorem purge_issued_iff :
    (env.purgeDir journal (l0RepoDir part)).issued = true ↔
      journal.contains part = false ∧ env.probe (l0RepoDir part) = 0 := by
  rw [← Bool.not_eq_true, ← dir_exists_iff]
  unfold purgeDir
  split_ifs <;> simp_all [PurgeEnd.issued]

end Purge

/-- A low disk overrides the repair gate for this partition, and the purge then finds
its remote copy. -/
structure OverriddenPurge (env : Housekeeping) (storage : Storage) (part : RelPath) : Prop where
  deletes : ∃ file, env.LowDiskDeletes storage part file
  held : ∃ reason, env.hold.bind (· part) = some reason
  dated : ∀ other ∈ storage.journal.keys, (fullmatchDate other.name).isOk
  backed : l0PartitionForL1 (l1PathOf part) = some (l0RepoDir part)
  unquarantined : storage.quarantine.contains part = false
  available : env.archiver = true
  listed : env.probe (l0RepoDir part) = 0

section Held
variable {env : Housekeeping} {storage : Storage} {verified : List String} {part : RelPath}
  {reason : String}

private theorem consulted_iff :
    .consulted asked (some reason) ∈ ((env.secondArgs verified).consult part).2 ↔
      asked = part ∧ env.hold.bind (· part) = some reason := by
  unfold PruneArgs.consult secondArgs
  cases env.hold with
  | none => simp
  | some hold => simp [eq_comm]

private theorem consulted_held (disk : env.diskOk = true)
    (asked : .consulted part (some reason) ∈ (env.secondPass storage verified).emitted) :
    .held (l1PathOf part) ∈ (env.secondPass storage verified).emitted := by
  obtain ⟨worked, reached, expired, within⟩ := mem_prune_events.mp asked
  cases gate_opened within rfl with
  | fresh count reusable gate =>
    obtain ⟨rfl, held⟩ := release_held gate
    refine mem_prune_events.mpr ⟨part, reached, expired, ?_⟩
    have normalize : (env.secondArgs verified).normalize = true := disk
    have fresh : (env.secondArgs verified).reuseFreshL1 = true := rfl
    simp only [PruneArgs.prunePart, normalize, fresh, if_true, reusable]
    exact release_events.mpr (Or.inr held)
  | rebuilt stale _ _ => cases stale
  | lowDisk low _ _ _ =>
    rw [secondArgs, disk] at low
    cases low

/-- A partition that the gate was asked about is an expired one. -/
private theorem consulted_expired
    (asked : .consulted part (some reason) ∈ (env.secondPass storage verified).emitted) :
    expiredAt env.cutoff part = true := by
  obtain ⟨worked, _, expired, within⟩ := mem_prune_events.mp asked
  cases gate_opened within rfl with
  | fresh _ _ gate => exact (release_held gate).1 ▸ expired
  | rebuilt stale _ _ => cases stale
  | lowDisk _ _ _ gate =>
    rcases mem_append.mp gate with told | gone
    · exact (consulted_iff.mp told).1 ▸ expired
    · simp at gone

section LowDisk
variable (low : env.diskOk = false) (set : env.verifiedSet storage = some verified)
include low set

private theorem low_disk_remaining :
    path ∈ remaining (pruneStats (env.secondPass storage verified).emitted) verified ↔
      path ∈ verified := by
  have plain : ∀ event ∈ (env.secondPass storage verified).emitted,
      event ≠ .held path ∧ event ≠ .invalidated path := by
    intro event happened
    obtain ⟨part, file, _, gone⟩ := (low_disk_events low set event).mp happened
    rcases mem_append.mp gone with asked | last
    · rw [consult_events asked]
      simp
    · rw [mem_singleton.mp last]
      simp
  simp only [remaining, mem_filter, mem_stats_held, mem_stats_invalidated, decide_eq_true_eq]
  exact ⟨And.left, fun member => ⟨member, fun found => (plain _ found).2 rfl,
    fun found => (plain _ found).1 rfl⟩⟩

end LowDisk

private theorem purged_in_run (set : env.verifiedSet storage = some verified)
    (purged : (l0RepoDir part, outcome) ∈ (env.run storage).purges) :
    (env.secondPass storage verified).stop = none ∧
      (l0RepoDir part, outcome) ∈ env.runEodRemoteL0Purge (env.secondPass storage verified).state
        (remaining (pruneStats (env.secondPass storage verified).emitted) verified) := by
  rw [(run_full set).2] at purged
  split at purged
  · cases purged
  · rename_i went
    exact ⟨went, purged⟩

private theorem low_disk_dated (low : env.diskOk = false) :
    (env.secondPass storage verified).stop = none ↔
      ∀ other ∈ storage.journal.keys, (fullmatchDate other.name).isOk := by
  rw [secondPass, low_disk_completes low, low_second low]

private theorem low_disk_quarantined (low : env.diskOk = false) :
    (env.secondPass storage verified).state.quarantine.contains part =
      storage.quarantine.contains part := by
  rw [Dict.contains, secondPass, low_disk_quarantine low, low_second low]
  rfl

end Held

/-- A partition for which the repair gate gave a reason in a run keeps its remote copy in
that run, exactly when no low disk overrides the gate for one whose copy the purge finds. -/
theorem held_l0_keeps_remote_copy (env : Housekeeping) (storage : Storage) :
    (∀ part reason, .consulted part (some reason) ∈ (env.run storage).events →
      ∀ outcome, (l0RepoDir part, outcome) ∈ (env.run storage).purges →
        outcome.issued = false) ↔
    ∀ part, ¬ env.OverriddenPurge storage part := by
  constructor
  · rintro kept part ⟨⟨file, deletes⟩, ⟨reason, held⟩, dated, backed, unquarantined, available,
      listed⟩
    have low := deletes.low
    obtain ⟨verified, set, member, _⟩ := low_disk_runs low deletes
    have asked : .consulted part (some reason) ∈ (env.run storage).events :=
      in_second_in_run set ((low_disk_events low set _).mpr
        ⟨part, file, deletes, mem_append_left _ (consulted_iff.mpr ⟨rfl, held⟩)⟩)
    have purged : (l0RepoDir part, env.purgeDir (env.secondPass storage verified).state.journal
        (l0RepoDir part)) ∈ (env.run storage).purges := by
      rw [(run_full set).2, (low_disk_dated low).mpr dated]
      exact (mem_purges deletes.expired).mpr ⟨available, (low_disk_remaining low set).mpr member, backed,
        (low_disk_quarantined low).trans unquarantined, rfl⟩
    have issued := purge_issued_iff.mpr ⟨low_disk_gone low set deletes, listed⟩
    rw [kept part reason asked _ purged] at issued
    cases issued
  · intro unhindered part reason asked outcome purged
    obtain ⟨verified, set, second⟩ := gated_in_second asked rfl
    obtain ⟨went, visited⟩ := purged_in_run set purged
    obtain ⟨available, member, backed, unquarantined, rfl⟩ :=
      (mem_purges (consulted_expired second)).mp visited
    cases disk : env.diskOk with
    | true =>
      -- The reason was recorded, so the path is no longer in the purge's set.
      simp only [remaining, mem_filter, mem_stats_held, decide_eq_true_eq] at member
      exact absurd (consulted_held disk second) member.2.2
    | false =>
      by_contra issued
      obtain ⟨_, listed⟩ := purge_issued_iff.mp (by simpa using issued)
      obtain ⟨worked, file, deletes, gone⟩ := (low_disk_events disk set _).mp second
      have told := (mem_append.mp gone).resolve_right (by simp)
      obtain ⟨rfl, held⟩ := consulted_iff.mp told
      exact unhindered part ⟨⟨file, deletes⟩, ⟨reason, held⟩, (low_disk_dated disk).mp went, backed,
        (low_disk_quarantined disk).symm.trans unquarantined, available, listed⟩

end Housekeeping

/-- An unrepaired partition is held on an ordinary night, and its remote copy stays. -/
theorem held_l0_keeps_remote_copy_pending :
    .consulted tickPart (some "ls:tape_pending") ∈
        ((night true (some "tape_pending")).run (trees [90])).events ∧
      ∀ outcome, (l0RepoDir tickPart, outcome) ∈
        ((night true (some "tape_pending")).run (trees [90])).purges →
        outcome.issued = false := by
  have held : .consulted tickPart (some "ls:tape_pending") ∈
      ((night true (some "tape_pending")).run (trees [90])).events := by
    decide +kernel
  exact ⟨held, (Housekeeping.held_l0_keeps_remote_copy _ (trees [90])).mpr
    (fun _ overridden => overridden.deletes.elim fun _ deletes => absurd deletes.low (by decide))
    _ "ls:tape_pending" held⟩

/-- On a low disk the gate's reason is overridden, nothing records it, and the purge
removes the remote copy as well. -/
theorem low_disk_purges_held_l0 :
    ∃ env storage part reason, .consulted part (some reason) ∈ (Housekeeping.run env storage).events ∧
      (l0RepoDir part, PurgeEnd.purged) ∈ (Housekeeping.run env storage).purges :=
  ⟨night false (some "tape_pending"), trees [90], tickPart, "ls:tape_pending",
    by decide +kernel, by decide +kernel⟩

end KrxAlpha
