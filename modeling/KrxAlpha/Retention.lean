import KrxAlpha.Layout
import KrxAlpha.SweepSeparate

/-! Retention of the journal and of the archive made from it. A journal
partition is a directory with the modification times of its files, an archive
file has the facts the deletion gate reads: size, digest, modification time
and the row count of its footer. What the source counts and collects while it
prunes is read off the pass's events. -/
namespace KrxAlpha

structure L1File where
  size : Nat
  md5 : String
  mtimeNs : Int
  rows : Option Int
  deriving DecidableEq

/-- The local trees: journal partitions and quarantined ones with the modification
times of their files, and the parquet files of the archive. -/
structure Storage where
  journal : Dict RelPath (List Int)
  archive : Dict RelPath L1File
  quarantine : Dict RelPath (List Int)

namespace Storage

def filesOf (storage : Storage) (part : RelPath) : List Int := (storage.journal.get? part).getD []

/-- The archive file of a partition, if there is one. -/
def l1Of (storage : Storage) (part : RelPath) : Option L1File :=
  storage.archive.get? (l1RelpathForL0Partition part)

end Storage

/-- `_reusable_l1_rows`; an unreadable footer has no row count. -/
def reusableL1Rows (files : List Int) : Option L1File → Option Int
  | none => none
  | some file =>
    if files.max?.any (file.mtimeNs < ·) then none
    else match file.rows with
      | none => none
      | some rows => if rows ≤ 0 then none else some rows

/-- `(root / l0_dir.removeprefix("l0/")).exists()`. -/
def dirExists (tree : Dict RelPath (List Int)) (l0Dir : String) : Bool :=
  tree.keys.any fun part => l0RepoDir part == l0Dir

/-- How one run of the isolated normalizer ended. -/
inductive NormalizeEnd where
  | rows (count : Int) | storageIo | workerCrash | dataFault | osError
  deriving DecidableEq

/-- One run of the normalizer; it may have replaced the archive file whatever its end. -/
structure NormalizeCall where
  outcome : NormalizeEnd
  written : Option L1File

inductive PruneEvent where
  /-- The tree of a partition is deleted, with these files and this archive file. -/
  | removed (part : RelPath) (files : List Int) (l1 : Option L1File)
  | quarantined (part : RelPath)
  /-- The repair gate was asked. -/
  | consulted (part : RelPath) (reason : Option String)
  | held (path : String)
  | invalidated (path : String)
  | normalized
  | reused
  | failed
  deriving DecidableEq

structure PruneArgs where
  cutoff : Int
  verifiedRemoteL1 : Option (List String)
  normalize : Bool
  reuseFreshL1 : Bool
  hold : Option (RelPath → Option String)
  normalizer : RelPath → NormalizeCall

namespace PruneArgs

def verified (args : PruneArgs) (part : RelPath) : Bool :=
  args.verifiedRemoteL1.any (·.contains (l1PathOf part))

/-- The answer of the repair gate and the event of asking it. -/
def consult (args : PruneArgs) (part : RelPath) : Option String × List PruneEvent :=
  match args.hold with
  | none => (none, [])
  | some hold => (hold part, [.consulted part (hold part)])

end PruneArgs

/-- What the work on one partition did. -/
structure Pruned where
  storage : Storage
  events : List PruneEvent := []
  stop : Option Error := none

/-- `shutil.rmtree(part)`, after the events so far. -/
def removePart (storage : Storage) (part : RelPath) (before : List PruneEvent) : Pruned where
  storage := { storage with journal := storage.journal.erase part }
  events := before ++ [.removed part (storage.filesOf part) (storage.l1Of part)]

/-- `shutil.move(part, dest)` into the quarantine tree. -/
def quarantinePart (storage : Storage) (part : RelPath) : Storage :=
  { storage with
    journal := storage.journal.erase part
    quarantine := storage.quarantine.set part (storage.filesOf part) }

def writeL1 (storage : Storage) (part : RelPath) : Option L1File → Storage
  | none => storage
  | some file => { storage with archive := storage.archive.set (l1RelpathForL0Partition part) file }

namespace PruneArgs

/-- The gate of a partition whose archive file is complete. -/
def release (args : PruneArgs) (storage : Storage) (part : RelPath) (before : List PruneEvent) :
    Pruned :=
  if args.verified part then
    if (args.consult part).1.isSome then
      { storage, events := before ++ (args.consult part).2 ++ [.held (l1PathOf part)] }
    else removePart storage part (before ++ (args.consult part).2)
  else { storage, events := before }

/-- What follows the normalizer's run, in the storage as it left it. -/
def settle (args : PruneArgs) (storage : Storage) (part : RelPath) (before : List PruneEvent) :
    NormalizeEnd → Pruned
  | .osError => { storage, events := before, stop := some (.foreign "OSError") }
  | .storageIo => { storage, events := before ++ [.failed] }
  | .workerCrash => { storage, events := before ++ [.failed] }
  | .dataFault =>
    if storage.quarantine.contains part then { storage, events := before ++ [.failed] }
    else
      { storage := quarantinePart storage part
        events := before ++ [.failed, .quarantined part] }
  | .rows count =>
    if count ≤ 0 ∨ storage.l1Of part = none then { storage, events := before }
    -- Remote verification predates this rewrite and cannot justify deletion.
    else if args.reuseFreshL1 then { storage, events := before ++ [.normalized] }
    else args.release storage part (before ++ [.normalized])

def rebuild (args : PruneArgs) (storage : Storage) (part : RelPath) (before : List PruneEvent) :
    Pruned :=
  args.settle (writeL1 storage part (args.normalizer part).written) part before
    (args.normalizer part).outcome

/-- What `prune_old_journals` does with a partition older than the cutoff. -/
def prunePart (args : PruneArgs) (storage : Storage) (part : RelPath) : Pruned :=
  if args.normalize then
    if args.reuseFreshL1 then
      match reusableL1Rows (storage.filesOf part) (storage.l1Of part) with
      | some _ => args.release storage part [.normalized, .reused]
      | none => args.rebuild storage part [.invalidated (l1PathOf part)]
    else args.rebuild storage part []
  -- Low disk: the answer of the repair gate is logged and overridden.
  else if (storage.l1Of part).isSome ∧ args.verified part then
    removePart storage part (args.consult part).2
  else { storage }

def visit (args : PruneArgs) (storage : Storage) (part : RelPath) :
    Visit Storage RelPath PruneEvent Error :=
  match fullmatchDate part.name with
  | .error err => ⟨storage, part, [], some err⟩
  | .ok none => ⟨storage, part, [], none⟩
  | .ok (some day) =>
    if args.cutoff ≤ day then ⟨storage, part, [], none⟩
    else
      let pruned := args.prunePart storage part
      ⟨pruned.storage, part, pruned.events, pruned.stop⟩

end PruneArgs

/-- `prune_old_journals`: one visit to every partition the walk found at the start. -/
def pruneOldJournals (args : PruneArgs) (storage : Storage) :
    Swept Storage (List RelPath) PruneEvent Error :=
  sweep args.visit storage storage.journal.keys

/-- The counters and sets that the source returns, read off the events of a pass. -/
structure PruneStats where
  deleted : Nat := 0
  normalized : Nat := 0
  failed : Nat := 0
  reused : Nat := 0
  invalidatedRemoteL1 : List String := []
  held : List String := []

def PruneStats.note (stats : PruneStats) : PruneEvent → PruneStats
  | .removed _ files _ => { stats with deleted := stats.deleted + files.length }
  | .normalized => { stats with normalized := stats.normalized + 1 }
  | .reused => { stats with reused := stats.reused + 1 }
  | .failed => { stats with failed := stats.failed + 1 }
  | .invalidated path => { stats with invalidatedRemoteL1 := path :: stats.invalidatedRemoteL1 }
  | .held path => { stats with held := path :: stats.held }
  | .quarantined _ => stats
  | .consulted _ _ => stats

def pruneStats (events : List PruneEvent) : PruneStats := events.foldl .note {}

private theorem mem_noted (events : List PruneEvent) (stats : PruneStats) :
    (path ∈ (events.foldl .note stats).held ↔ path ∈ stats.held ∨ .held path ∈ events) ∧
    (path ∈ (events.foldl .note stats).invalidatedRemoteL1 ↔
      path ∈ stats.invalidatedRemoteL1 ∨ .invalidated path ∈ events) := by
  induction events generalizing stats with
  | nil => simp
  | cons event rest ih =>
    rw [List.foldl_cons, (ih _).1, (ih _).2]
    cases event <;> simp [PruneStats.note, or_assoc, or_left_comm]

theorem mem_stats_held : path ∈ (pruneStats events).held ↔ .held path ∈ events := by
  simp [pruneStats, (mem_noted events {}).1]

theorem mem_stats_invalidated :
    path ∈ (pruneStats events).invalidatedRemoteL1 ↔ .invalidated path ∈ events := by
  simp [pruneStats, (mem_noted events {}).2]

/-- `_DT_RE.search`: the date text of the leftmost `dt=YYYY-MM-DD`. -/
def searchDate : List Char → Option (List Char)
  | [] => none
  | char :: rest =>
    match datedHead (char :: rest) with
    | some (iso, _) => some iso
    | none => searchDate rest

/-- The date by which the archive's own retention counts a file. Tick tapes have it
in the name of their directory. -/
def archiveDate (rel : RelPath) : Except Error (Option Nat) :=
  match searchDate rel.name.toList with
  | some iso => (dateOfIso iso).map some
  | none =>
    if ["history", "tick_tape", "kiwoom"].isPrefixOf rel.parts then
      fullmatchDate (rel.parts.dropLast.getLast?.getD "")
    else .ok none

def visitLocalL1 (cutoff : Int) (confirmed : List String) (archive : Dict RelPath L1File)
    (rel : RelPath) : Visit (Dict RelPath L1File) RelPath RelPath Error :=
  match archiveDate rel with
  | .error err => ⟨archive, rel, [], some err⟩
  | .ok none => ⟨archive, rel, [], none⟩
  | .ok (some day) =>
    if cutoff ≤ day then ⟨archive, rel, [], none⟩
    else if confirmed.contains (l1RepoPath rel) then ⟨archive.erase rel, rel, [rel], none⟩
    else ⟨archive, rel, [], none⟩

/-- `prune_local_l1`, over the archive in the order the source sorts it. -/
def pruneLocalL1 (cutoff : Int) (confirmed : List String) (archive : Dict RelPath L1File) :
    Swept (Dict RelPath L1File) (List RelPath) RelPath Error :=
  sweep (visitLocalL1 cutoff confirmed) archive archive.keys

/-- A complete archive file is not older than any file of its partition. -/
theorem reusable_l1_rows_fresh (reusable : reusableL1Rows files l1 = some count) :
    ∃ file, l1 = some file ∧ ∀ stamp ∈ files, stamp ≤ file.mtimeNs := by
  unfold reusableL1Rows at reusable
  split at reusable
  · cases reusable
  · rename_i file
    split at reusable
    · cases reusable
    · rename_i fresh
      refine ⟨file, rfl, fun stamp member => ?_⟩
      cases newest : files.max? with
      | none => simp [List.max?_eq_none_iff.mp newest] at member
      | some top =>
        have bound := (List.max?_eq_some_iff.mp newest).2 stamp member
        simp only [newest, Option.any_some, decide_eq_true_eq, not_lt] at fresh
        omega

section LocalL1
variable {cutoff : Int} {confirmed : List String}

/-- The archive's retention drops this file. -/
def droppedL1 (cutoff : Int) (confirmed : List String) (rel : RelPath) : Bool :=
  match archiveDate rel with
  | .ok (some day) => decide ((day : Int) < cutoff) && confirmed.contains (l1RepoPath rel)
  | _ => false

theorem visit_local_l1_state (archive : Dict RelPath L1File) (rel : RelPath) :
    (visitLocalL1 cutoff confirmed archive rel).state =
      if droppedL1 cutoff confirmed rel then archive.erase rel else archive := by
  unfold visitLocalL1 droppedL1
  rcases archiveDate rel with err | _ | day
  · rfl
  · rfl
  · by_cases young : cutoff ≤ (day : Int)
    · simp [young, not_lt.mpr young]
    · by_cases listed : l1RepoPath rel ∈ confirmed <;> simp [young, listed, not_le.mp young]

theorem visit_local_l1_stop (archive : Dict RelPath L1File) (rel : RelPath) :
    (visitLocalL1 cutoff confirmed archive rel).stop = none ↔ (archiveDate rel).isOk := by
  unfold visitLocalL1
  rcases archiveDate rel with err | _ | day
  · simp [Except.isOk, Except.toBool]
  · simp [Except.isOk, Except.toBool]
  · simp only [Except.isOk, Except.toBool, iff_true]
    split_ifs <;> rfl

theorem separate_local_l1 :
    Separate (visitLocalL1 cutoff confirmed) (fun archive rel => archive.get? rel) where
  framed := by
    intro archive rel other different
    rw [visit_local_l1_state]
    split
    · simp [Dict.get?_erase, different]
    · rfl
  emits := by
    intro first second rel _
    unfold visitLocalL1
    split
    · rfl
    · rfl
    · split_ifs <;> rfl
  stops := by
    intro first second rel _
    unfold visitLocalL1
    split
    · rfl
    · rfl
    · split_ifs <;> rfl
  writes := by
    intro first second rel same
    rw [visit_local_l1_state, visit_local_l1_state]
    split
    · simp [Dict.get?_erase]
    · exact same

theorem prune_local_l1_stop (archive : Dict RelPath L1File) :
    (pruneLocalL1 cutoff confirmed archive).stop = none ↔
      ∀ rel ∈ archive.keys, (archiveDate rel).isOk := by
  rw [pruneLocalL1, separate_local_l1.stop_none_iff archive.keys_nodup]
  exact forall₂_congr fun rel _ => visit_local_l1_stop archive rel

/-- The archive files that precede a name with a date no calendar has. -/
def datedFiles (archive : Dict RelPath L1File) : List RelPath :=
  reach (fun rel => !(archiveDate rel).isOk) archive.keys

theorem dated_files_all (dated : ∀ rel ∈ archive.keys, (archiveDate rel).isOk) :
    datedFiles archive = archive.keys :=
  reach_of_quiet fun rel member => by simp [dated rel member]

/-- A pass drops the files it gets to that are to be dropped, and no other. -/
theorem prune_local_l1_get? (archive : Dict RelPath L1File) (rel : RelPath) :
    (pruneLocalL1 cutoff confirmed archive).state.get? rel =
      if rel ∈ datedFiles archive ∧ droppedL1 cutoff confirmed rel = true then none
      else archive.get? rel := by
  have same : reach (fun rel => (visitLocalL1 cutoff confirmed archive rel).stop.isSome)
      archive.keys = datedFiles archive := by
    refine reach_congr fun rel _ => ?_
    rw [Bool.eq_iff_iff, Bool.not_eq_true', ← Bool.not_eq_true, ← visit_local_l1_stop archive rel,
      Option.isSome_iff_ne_none]
  by_cases reached : rel ∈ datedFiles archive
  · rw [pruneLocalL1, separate_local_l1.view_reached archive.keys_nodup archive (by rwa [same]),
      visit_local_l1_state]
    by_cases dropped : droppedL1 cutoff confirmed rel = true
    · simp [dropped, reached, Dict.get?_erase]
    · simp [dropped]
  · rw [pruneLocalL1,
      separate_local_l1.view_unreached archive.keys_nodup archive (by rwa [same]),
      if_neg fun both => reached both.1]

end LocalL1

end KrxAlpha
