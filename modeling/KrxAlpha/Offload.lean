import KrxAlpha.RemoteListing

/-! The offload of the archive to the remote, call by call. Every file is compared with a listing
or uploaded and listed again; a failed file gets a second try after the pass. Only when all went
through are local files deleted, by a last listing of names. -/
namespace KrxAlpha.Offload

/-- One entry of a listing. A size that is no number of bytes is `none`; a hash is in lower case. -/
structure LsEntry where
  path : String
  isDir : Bool := false
  size : Option Nat
  md5 : Option String
  deriving DecidableEq

/-- The commands given to `rclone`, by the path below the remote root. -/
inductive Command where
  | lsTree (dir : String) (withHash : Bool)
  | copyTo (repoPath : String)
  | lsFile (repoPath : String)
  deriving DecidableEq

/-- The exit code, and what is printed, `none` if that is no JSON. -/
structure RcloneResult where
  returncode : Int
  stdout : Option (List LsEntry)

/-- What `rclone` will answer, and the calls made so far. -/
structure Rclone where
  results : Nat → RcloneResult
  calls : List (Command × RcloneResult) := []

inductive OffloadError where
  | lsjsonFailed
  | invalidJson
  | invalidSize
  | verifyFailed (repoPath : String)
  | manifestFailed (repoPath : String)
  | offloadFailed (l1 : Nat) (manifests : Nat)
  | valueError
  | keyError
  deriving DecidableEq

/-- The error is a `RemoteArchiveError`. -/
def OffloadError.isArchive : OffloadError → Bool
  | .valueError | .keyError => false
  | _ => true

/-- Why an upload counts as failed. -/
inductive UploadFailure where
  | uploadFailed (returncode : Int)
  | verifyMissing
  | duplicateRemoteName
  | sizeMismatch (remote : Nat)
  | md5Mismatch (remote : Option String)
  deriving DecidableEq

structure SyncStats where
  uploaded : Nat := 0
  skippedVerified : Nat := 0
  failedVerification : Nat := 0
  deriving DecidableEq

/-- A pass over the files: counters, files for a second try, and the calls. -/
structure SyncState where
  stats : SyncStats := {}
  retry : List (RelPath × L1File) := []
  rclone : Rclone

/-- The path below the remote root of an entry of a listed directory. -/
def fullPath (dir path : String) : String := if path = "" then dir else dir ++ "/" ++ path

/-- The entry's path is taken for one below the remote root. -/
def LsEntry.isFull (entry : LsEntry) (dir : String) : Bool :=
  entry.path = dir || (dir ++ "/").toList.isPrefixOf entry.path.toList

/-- Paths are put behind the directory listed, unless one of them seems to be there already. -/
def reframe (dir : String) (entries : List LsEntry) : List LsEntry :=
  if entries.any (·.isFull dir) then entries
  else entries.map fun entry => { entry with path := fullPath dir entry.path }

/-- The files of a listing below a path, with their sizes. -/
def readFiles (head : String) (entries : List LsEntry) : Except OffloadError (List RemoteEntry) :=
  (entries.filter fun entry => !entry.isDir && head.toList.isPrefixOf entry.path.toList).mapM fun entry =>
    match entry.size with
    | none => .error .invalidSize
    | some size => .ok ⟨entry.path, size, entry.md5⟩

/-- The names of the files of a listing below a path. -/
def filesIn (head : String) (entries : List LsEntry) : List String :=
  (entries.filter fun entry => !entry.isDir && head.toList.isPrefixOf entry.path.toList).map (·.path)

/-- `_objects_by_path` -/
def objectsIn (head : String) (entries : List LsEntry) : Except OffloadError (Dict String RemoteObject) := do
  return objectsByPath head (← readFiles head entries)

namespace Rclone

/-- `_run` -/
def run (rclone : Rclone) (command : Command) : RcloneResult × Rclone :=
  let result := rclone.results rclone.calls.length
  (result, { rclone with calls := rclone.calls ++ [(command, result)] })

/-- `_lsjson_recursive` -/
def lsjsonRecursive (rclone : Rclone) (dir : String) (withHash : Bool) :
    Except OffloadError (List LsEntry × Rclone) :=
  let listed := rclone.run (.lsTree dir withHash)
  if listed.1.returncode = 3 then .ok ([], listed.2)
  else if listed.1.returncode ≠ 0 then .error .lsjsonFailed
  else
    match listed.1.stdout with
    | none => .error .invalidJson
    | some entries => .ok (reframe dir entries, listed.2)

def remoteFiles (rclone : Rclone) (dir : String) : Except OffloadError (List String × Rclone) := do
  let listed ← rclone.lsjsonRecursive dir false
  return (filesIn (dir ++ "/") listed.1, listed.2)

def remoteObjects (rclone : Rclone) (dir : String) :
    Except OffloadError (Dict String RemoteObject × Rclone) := do
  let listed ← rclone.lsjsonRecursive dir true
  return (← objectsIn (dir ++ "/") listed.1, listed.2)

/-- The entries of a listing of one path are its copies, whatever they are called. -/
def copiesOf (repoPath : String) (entries : List LsEntry) : List LsEntry :=
  entries.map fun entry => { entry with path := repoPath }

/-- The object of a listed path. -/
def objectOf (repoPath : String) (result : RcloneResult) : Except OffloadError RemoteObject :=
  if result.returncode ≠ 0 then .error (.verifyFailed repoPath)
  else
    match result.stdout with
    | none => .error .valueError
    | some entries =>
      if entries.isEmpty then .error (.verifyFailed repoPath)
      else do
        let objects ← objectsIn repoPath (copiesOf repoPath entries)
        match objects.get? repoPath with
        | none => .error .keyError
        | some object => .ok object

/-- `_remote_object` -/
def remoteObject (rclone : Rclone) (repoPath : String) : Except OffloadError RemoteObject × Rclone :=
  let listed := rclone.run (.lsFile repoPath)
  (objectOf repoPath listed.1, listed.2)

/-- `_upload_verified`, where `none` is a verified upload. -/
def uploadVerified (rclone : Rclone) (file : L1File) (repoPath : String) :
    Except OffloadError (Option UploadFailure × Rclone) :=
  let copied := rclone.run (.copyTo repoPath)
  if copied.1.returncode ≠ 0 then .ok (some (.uploadFailed copied.1.returncode), copied.2)
  else
    let remote := copied.2.remoteObject repoPath
    match remote.1 with
    | .error err => if err.isArchive then .ok (some .verifyMissing, remote.2) else .error err
    | .ok object =>
      if object.duplicate then .ok (some .duplicateRemoteName, remote.2)
      else if object.size ≠ file.size then .ok (some (.sizeMismatch object.size), remote.2)
      else if object.md5 ≠ some file.md5 then .ok (some (.md5Mismatch object.md5), remote.2)
      else .ok (none, remote.2)

end Rclone

namespace SyncState

/-- One file of a pass. -/
def offer (objects : Dict String RemoteObject) (repoPathFor : RelPath → String) (state : SyncState)
    (entry : RelPath × L1File) : Except OffloadError SyncState :=
  if remoteMatches (objects.get? (repoPathFor entry.1)) entry.2 then
    .ok { state with stats.skippedVerified := state.stats.skippedVerified + 1 }
  else do
    let offered ← state.rclone.uploadVerified entry.2 (repoPathFor entry.1)
    match offered.1 with
    | none => return { state with stats.uploaded := state.stats.uploaded + 1, rclone := offered.2 }
    | some _ => return { state with retry := state.retry ++ [entry], rclone := offered.2 }

/-- The second try of an archive file counts a failure, that of a manifest raises. -/
def again (repoPathFor : RelPath → String) (raises : Bool) (state : SyncState)
    (entry : RelPath × L1File) : Except OffloadError SyncState := do
  let offered ← state.rclone.uploadVerified entry.2 (repoPathFor entry.1)
  match offered.1 with
  | none => return { state with stats.uploaded := state.stats.uploaded + 1, rclone := offered.2 }
  | some _ =>
    if raises then throw (.manifestFailed (repoPathFor entry.1))
    else
      return { state with
        stats.failedVerification := state.stats.failedVerification + 1
        rclone := offered.2 }

end SyncState

def manifestRepoPath (rel : RelPath) : String := String.ofList ("manifests/".toList ++ rel.chars)

/-- Both syncs: the files against a listing, then those that failed once more. -/
def syncTree (rclone : Rclone) (dir : String) (repoPathFor : RelPath → String) (raises : Bool)
    (files : Dict RelPath L1File) : Except OffloadError SyncState := do
  let listed ← rclone.remoteObjects dir
  let pass ← files.entries.foldlM (SyncState.offer listed.1 repoPathFor) { rclone := listed.2 }
  pass.retry.foldlM (SyncState.again repoPathFor raises) pass

def syncL1Tree (rclone : Rclone) (archive : Dict RelPath L1File) : Except OffloadError SyncState :=
  syncTree rclone "l1" l1RepoPath false archive

def syncManifestTree (rclone : Rclone) (manifests : Dict RelPath L1File) :
    Except OffloadError SyncState :=
  syncTree rclone "manifests" manifestRepoPath true manifests

/-- The remote paths that allow a local archive file to go: where a journal root is given, none
whose partition is still in the journal. -/
def confirmed (journal : Option (Dict RelPath (List Int))) (files : List String) : List String :=
  match journal with
  | none => files
  | some journal => files.filter fun path =>
      (l0PartitionForL1 path).all fun dir => !dirExists journal dir

/-- The local side of an offload; `journal` is `none` where no journal root is given. -/
structure OffloadArgs where
  archive : Dict RelPath L1File
  manifests : Dict RelPath L1File
  journal : Option (Dict RelPath (List Int))
  archiveCutoff : Int

/-- What the remote said: the counters of both syncs, the verified paths, the names listed last
and the calls. -/
structure Consulted where
  l1 : SyncStats
  manifests : SyncStats
  verified : List String
  files : List String
  rclone : Rclone

/-- The end of an offload: the archive, and what the remote said unless it raised. -/
structure OffloadRun where
  archive : Dict RelPath L1File
  consulted : Option Consulted

namespace OffloadArgs

/-- All that comes before the deletion. -/
def consult (args : OffloadArgs) (rclone : Rclone) : Except OffloadError Consulted := do
  let l1 ← syncL1Tree rclone args.archive
  let manifests ← syncManifestTree l1.rclone args.manifests
  if 0 < l1.stats.failedVerification ∨ 0 < manifests.stats.failedVerification then
    throw (.offloadFailed l1.stats.failedVerification manifests.stats.failedVerification)
  let listed ← manifests.rclone.remoteObjects "l1"
  let files ← listed.2.remoteFiles "l1"
  return ⟨l1.stats, manifests.stats, verifiedPaths args.archive listed.1, files.1, files.2⟩

/-- `run_eod_offload` with the answers of `rclone` to come; without an archiver nothing is done. -/
def runEodOffload (args : OffloadArgs) (results : Option (Nat → RcloneResult)) : OffloadRun :=
  match results.map fun results => args.consult { results } with
  | none | some (.error _) => ⟨args.archive, none⟩
  | some (.ok consulted) =>
    ⟨(pruneLocalL1 args.archiveCutoff (confirmed args.journal consulted.files) args.archive).state,
      some consulted⟩

end OffloadArgs
end KrxAlpha.Offload
