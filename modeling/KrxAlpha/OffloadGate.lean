import KrxAlpha.Housekeeping

/-! A local archive file is deleted only after a listing has shown its copy on the remote. The last
listing, which decides the deletion, is of names only; the bytes were compared before, when every
file was found in the first listing or uploaded and listed again. The gate fails where a directory
inside `l1` is itself called `l1`: its entries are then taken for paths below the remote root, and
a file may match there that no listing shows under its own path. -/
namespace KrxAlpha.Offload
open List hiding head

/-- The files a call has shown, under their paths below the remote root. A recursive listing names
them from the directory listed, and a listing of one path shows its copies. -/
def shown (call : Command × RcloneResult) : List LsEntry :=
  if call.2.returncode = 0 then
    let files := (call.2.stdout.getD []).filter (!·.isDir)
    match call.1 with
    | .lsTree dir _ => files.map fun entry => { entry with path := fullPath dir entry.path }
    | .lsFile path => files.map fun entry => { entry with path := path }
    | .copyTo _ => []
  else []

/-- The call has shown a copy under the path, and none that differs from the file. -/
def ShowsCopy (call : Command × RcloneResult) (path : String) (file : L1File) : Prop :=
  (∃ entry ∈ shown call, entry.path = path) ∧
    ∀ entry ∈ shown call, entry.path = path → entry.size = some file.size ∧ entry.md5 = some file.md5

instance decidableShowsCopy (call : Command × RcloneResult) (path : String) (file : L1File) :
    Decidable (ShowsCopy call path file) :=
  inferInstanceAs (Decidable (_ ∧ _))

/-- The command lists the directory. -/
def Command.lists (dir : String) : Command → Bool
  | .lsTree listed _ => listed = dir
  | _ => false

/-- One of the calls made has shown it. -/
def Rclone.Seen (rclone : Rclone) (path : String) (file : L1File) : Prop :=
  ∃ call ∈ rclone.calls, ShowsCopy call path file

theorem Rclone.Seen.later {before after : Rclone}
    (seen : before.Seen path file) (later : before.calls ⊆ after.calls) : after.Seen path file := by
  obtain ⟨call, made, shows⟩ := seen
  exact ⟨call, later made, shows⟩

/-! ### Listings -/

/-- Every file listed under the path is this one, and there is one. -/
def Copies (entries : List LsEntry) (path : String) (file : L1File) : Prop :=
  (∃ entry ∈ entries, entry.isDir = false ∧ entry.path = path) ∧
    ∀ entry ∈ entries, entry.isDir = false → entry.path = path →
      entry.size = some file.size ∧ entry.md5 = some file.md5

/-- The copy matches in a listing that is taken for one of the remote root, since a path of it
seems to begin with the directory listed. -/
def NestedMatch (dir : String) (entries : List LsEntry) (path : String) (file : L1File) : Prop :=
  entries.any (·.isFull dir) ∧ Copies entries path file

private theorem read_entry {entry : LsEntry} {read : RemoteEntry}
    (acted : (match entry.size with
      | none => Except.error OffloadError.invalidSize
      | some size => Except.ok (RemoteEntry.mk entry.path size entry.md5)) = Except.ok read) :
    entry.path = read.path ∧ entry.size = some read.size ∧ entry.md5 = read.md5 := by
  cases size : entry.size with
  | none =>
    rw [size] at acted
    cases acted
  | some size' =>
    rw [size] at acted
    cases acted
    exact ⟨rfl, rfl, rfl⟩

private theorem listed_copy_iff
    (read : readFiles head entries = .ok files) (under : head.toList.isPrefixOf path.toList)
    (file : L1File) : ListedCopy files path file ↔ Copies entries path file := by
  obtain ⟨each, back⟩ := mem_mapM_ok read
  have forth : ∀ entry ∈ entries, entry.isDir = false → entry.path = path →
      ∃ read ∈ files, entry.path = read.path ∧ entry.size = some read.size ∧ entry.md5 = read.md5 := by
    intro entry listed file here
    obtain ⟨read, found, acted⟩ := each entry
      (mem_filter.mpr ⟨listed, by rw [file, here, under]; rfl⟩)
    exact ⟨read, found, read_entry acted⟩
  have source : ∀ read ∈ files, ∃ entry ∈ entries, entry.isDir = false ∧
      entry.path = read.path ∧ entry.size = some read.size ∧ entry.md5 = read.md5 := by
    intro read found
    obtain ⟨entry, listed, acted⟩ := back read found
    obtain ⟨listed, kept⟩ := mem_filter.mp listed
    simp only [Bool.and_eq_true, Bool.not_eq_true'] at kept
    exact ⟨entry, listed, kept.1, read_entry acted⟩
  constructor
  · rintro ⟨⟨first, found, here⟩, same⟩
    obtain ⟨entry, listed, plain, path, -⟩ := source first found
    refine ⟨⟨entry, listed, plain, path.trans here⟩, fun entry listed plain here => ?_⟩
    obtain ⟨read, found, path, size, md5⟩ := forth entry listed plain here
    obtain ⟨ownSize, ownMd5⟩ := same read found (path ▸ here)
    exact ⟨by rw [size, ownSize], by rw [md5, ownMd5]⟩
  · rintro ⟨⟨first, listed, plain, here⟩, same⟩
    obtain ⟨read, found, path, -⟩ := forth first listed plain here
    refine ⟨⟨read, found, path ▸ here⟩, fun read found here => ?_⟩
    obtain ⟨entry, listed, plain, path, size, md5⟩ := source read found
    obtain ⟨ownSize, ownMd5⟩ := same entry listed plain (path.trans here)
    exact ⟨Option.some.inj (size.symm.trans ownSize), md5.symm.trans ownMd5⟩

/-- What is verifiable depends on which files are listed, not on their order. -/
theorem objects_match_iff
    (gathered : objectsIn head entries = .ok objects) (path : String) (file : L1File) :
    remoteMatches (objects.get? path) file = true ↔
      head.toList.isPrefixOf path.toList ∧ Copies entries path file := by
  obtain ⟨files, read, gathered⟩ := bind_ok gathered
  cases gathered
  constructor
  · intro same
    have under := remote_matches_under same
    exact ⟨under, (listed_copy_iff read under file).mp (remote_matches_listed same)⟩
  · rintro ⟨under, copies⟩
    exact remote_matches_of_listed under ((listed_copy_iff read under file).mpr copies)

private theorem read_files_ok_iff :
    (∃ files, readFiles head entries = .ok files) ↔
      ∀ entry ∈ entries, entry.isDir = false → head.toList.isPrefixOf entry.path.toList → entry.size.isSome := by
  constructor
  · rintro ⟨files, read⟩ entry listed plain under
    obtain ⟨read, -, acted⟩ := (mem_mapM_ok read).1 entry
      (mem_filter.mpr ⟨listed, by rw [plain, under]; rfl⟩)
    rw [(read_entry acted).2.1]
    rfl
  · intro sized
    let read : LsEntry → RemoteEntry := fun entry => ⟨entry.path, entry.size.getD 0, entry.md5⟩
    refine ⟨_, @mapM_ok _ _ _ _ read _ fun entry kept => ?_⟩
    obtain ⟨listed, kept⟩ := mem_filter.mp kept
    simp only [Bool.and_eq_true, Bool.not_eq_true'] at kept
    obtain ⟨size, sized⟩ := Option.isSome_iff_exists.mp (sized entry listed kept.1 kept.2)
    simp only [read, sized, Option.getD_some]

/-- `remote_objects`, on a listing of the directory, treats the path as verifiable for the file. -/
def Verifiable (dir : String) (entries : List LsEntry) (path : String) (file : L1File) : Prop :=
  ∃ objects, objectsIn (dir ++ "/") (reframe dir entries) = .ok objects ∧
    remoteMatches (objects.get? path) file = true

private theorem verifiable_iff :
    Verifiable dir entries path file ↔
      (∀ entry ∈ reframe dir entries, entry.isDir = false →
        (dir ++ "/").toList.isPrefixOf entry.path.toList → entry.size.isSome) ∧
      (dir ++ "/").toList.isPrefixOf path.toList ∧ Copies (reframe dir entries) path file := by
  constructor
  · rintro ⟨objects, gathered, same⟩
    obtain ⟨files, read, -⟩ := bind_ok gathered
    exact ⟨read_files_ok_iff.mp ⟨files, read⟩, (objects_match_iff gathered path file).mp same⟩
  · rintro ⟨sized, copies⟩
    obtain ⟨files, read⟩ := read_files_ok_iff.mpr sized
    have gathered : objectsIn (dir ++ "/") (reframe dir entries) = .ok (objectsByPath (dir ++ "/") files) := by
      rw [objectsIn, read]
      rfl
    exact ⟨_, gathered, (objects_match_iff gathered path file).mpr copies⟩

private theorem reframe_mem (shuffled : entries.Perm entries')
    (entry : LsEntry) : entry ∈ reframe dir entries ↔ entry ∈ reframe dir entries' := by
  have full : entries.any (·.isFull dir) = entries'.any (·.isFull dir) := by
    rw [Bool.eq_iff_iff, any_eq_true, any_eq_true]
    simp only [shuffled.mem_iff]
  rw [reframe, reframe, full]
  split
  · exact shuffled.mem_iff
  · exact (shuffled.map _).mem_iff

/-- The order of a listing does not matter. -/
theorem verifiable_perm (shuffled : entries.Perm entries')
    (path : String) (file : L1File) : Verifiable dir entries path file ↔ Verifiable dir entries' path file := by
  rw [verifiable_iff, verifiable_iff]
  simp only [Copies, reframe_mem shuffled]

/-! ### Calls -/

/-- What a listing printed; it exits with 3 where there is nothing. -/
def RcloneResult.printed (result : RcloneResult) : List LsEntry :=
  if result.returncode = 3 then [] else result.stdout.getD []

/-- The call shows nothing under the path, unless it lists `l1`. -/
def Spares (path : String) (call : Command × RcloneResult) : Prop :=
  call.1.lists "l1" = true ∨ ∀ entry ∈ shown call, entry.path ≠ path

theorem spares_file (other : own ≠ path) (result : RcloneResult) : Spares path (.lsFile own, result) := by
  right
  intro entry listed
  unfold shown at listed
  split_ifs at listed
  · obtain ⟨source, -, rfl⟩ := mem_map.mp listed
    exact other
  · cases listed

theorem spares_manifests (rel : RelPath) (result : RcloneResult) :
    Spares (l1RepoPath rel) (.lsTree "manifests" withHash, result) := by
  right
  intro entry listed same
  unfold shown at listed
  split_ifs at listed
  · obtain ⟨source, -, rfl⟩ := mem_map.mp listed
    have first := congrArg (fun path : String => path.toList.head?) same
    simp only [fullPath] at first
    split_ifs at first
    · simp [l1RepoPath] at first
    · simp [l1RepoPath] at first
  · cases listed

namespace Rclone

theorem run_calls (rclone : Rclone) (command : Command) :
    rclone.calls ⊆ (rclone.run command).2.calls ∧
      (command, (rclone.run command).1) ∈ (rclone.run command).2.calls :=
  ⟨subset_append_left _ _, mem_append_right _ (mem_singleton_self _)⟩

/-- No call made so far shows the path but listings of `l1`. -/
def Spared (rclone : Rclone) (path : String) : Prop := ∀ call ∈ rclone.calls, Spares path call

theorem Spared.run {rclone : Rclone} (spared : rclone.Spared path)
    (own : ∀ result, Spares path (command, result)) : (rclone.run command).2.Spared path :=
  forall_mem_append.mpr ⟨spared, forall_mem_singleton.mpr (own _)⟩

private theorem copies_placed {entries : List LsEntry} {place : LsEntry → String}
    (copies : Copies (entries.map fun entry => { entry with path := place entry }) path file) :
    let placed := (entries.filter (!·.isDir)).map fun entry => { entry with path := place entry }
    (∃ entry ∈ placed, entry.path = path) ∧
      ∀ entry ∈ placed, entry.path = path → entry.size = some file.size ∧ entry.md5 = some file.md5 := by
  obtain ⟨⟨first, listed, plain, here⟩, same⟩ := copies
  obtain ⟨source, inside, rfl⟩ := mem_map.mp listed
  refine ⟨⟨_, mem_map.mpr ⟨source, mem_filter.mpr ⟨inside, ?_⟩, rfl⟩, here⟩, fun entry placed => ?_⟩
  · rw [show source.isDir = false from plain]
    rfl
  · obtain ⟨source, kept, rfl⟩ := mem_map.mp placed
    obtain ⟨inside, plain⟩ := mem_filter.mp kept
    exact same _ (mem_map.mpr ⟨source, inside, rfl⟩) (by simpa using plain)

theorem lsjson_recursive_ok {rclone after : Rclone}
    (listed : rclone.lsjsonRecursive dir withHash = .ok (entries, after)) :
    entries = reframe dir (rclone.run (.lsTree dir withHash)).1.printed ∧
      after = (rclone.run (.lsTree dir withHash)).2 ∧
      ((rclone.run (.lsTree dir withHash)).1.printed = [] ∨
        (rclone.run (.lsTree dir withHash)).1.returncode = 0 ∧
        (rclone.run (.lsTree dir withHash)).1.stdout =
          some (rclone.run (.lsTree dir withHash)).1.printed) := by
  unfold lsjsonRecursive at listed
  generalize rclone.run (.lsTree dir withHash) = answer at listed ⊢
  rw [RcloneResult.printed]
  simp only at listed
  split_ifs at listed with absent failed
  · cases listed
    rw [if_pos absent]
    exact ⟨rfl, rfl, .inl rfl⟩
  · rw [if_neg absent]
    cases stdout : answer.1.stdout with
    | none =>
      rw [stdout] at listed
      cases listed
    | some plain =>
      rw [stdout] at listed
      cases listed
      exact ⟨rfl, rfl, .inr ⟨not_not.mp failed, rfl⟩⟩

theorem remote_objects_ok {rclone after : Rclone}
    (listed : rclone.remoteObjects dir = .ok (objects, after)) :
    objectsIn (dir ++ "/") (reframe dir (rclone.run (.lsTree dir true)).1.printed) = .ok objects ∧
      after = (rclone.run (.lsTree dir true)).2 := by
  obtain ⟨found, printed, rest⟩ := bind_ok listed
  obtain ⟨_, gathered, done⟩ := bind_ok rest
  cases done
  obtain ⟨entries, same, -⟩ := lsjson_recursive_ok printed
  exact ⟨entries ▸ gathered, same⟩

/-- Whatever matches the objects of a listing has been seen, or it matches because the listing is
taken for one of the remote root. -/
theorem remote_objects_seen {rclone after : Rclone}
    (listed : rclone.remoteObjects dir = .ok (objects, after))
    (same : remoteMatches (objects.get? path) file = true) :
    after.Seen path file ∨ NestedMatch dir (rclone.run (.lsTree dir true)).1.printed path file := by
  obtain ⟨gathered, rfl⟩ := remote_objects_ok listed
  obtain ⟨-, copies⟩ := (objects_match_iff gathered path file).mp same
  obtain ⟨found, printed, -⟩ := bind_ok listed
  obtain ⟨-, -, shape⟩ := lsjson_recursive_ok printed
  obtain ⟨-, made⟩ := rclone.run_calls (.lsTree dir true)
  generalize (rclone.run (.lsTree dir true)).1.printed = plain at copies shape ⊢
  cases full : plain.any (·.isFull dir) with
  | true =>
    rw [reframe, if_pos full] at copies
    exact .inr ⟨full, copies⟩
  | false =>
    rw [reframe, full, if_neg Bool.false_ne_true] at copies
    rcases shape with none | ⟨calm, stdout⟩
    · obtain ⟨⟨entry, held, -⟩, -⟩ := copies
      rw [none] at held
      cases held
    · refine .inl ⟨_, made, ?_⟩
      simpa only [ShowsCopy, shown, calm, stdout, if_true, Option.getD_some] using
        copies_placed copies

/-- A unique object that equals the file has been seen in the listing of its path. -/
theorem remote_object_seen {rclone : Rclone} (found : (rclone.remoteObject path).1 = .ok object)
    (same : remoteMatches (some object) file = true) : (rclone.remoteObject path).2.Seen path file := by
  obtain ⟨-, made⟩ := rclone.run_calls (.lsFile path)
  refine ⟨_, made, ?_⟩
  change objectOf path (rclone.run (.lsFile path)).1 = .ok object at found
  rw [objectOf] at found
  split_ifs at found with failed
  cases printed : (rclone.run (.lsFile path)).1.stdout with
  | none =>
    rw [printed] at found
    cases found
  | some entries =>
    simp only [printed] at found
    split_ifs at found
    obtain ⟨objects, gathered, found⟩ := bind_ok found
    cases held : objects.get? path with
    | none =>
      rw [held] at found
      cases found
    | some own =>
      rw [held] at found
      cases found
      obtain ⟨-, copies⟩ := (objects_match_iff gathered path file).mp (by rw [held]; exact same)
      simpa only [ShowsCopy, shown, not_not.mp failed, printed, if_true, Option.getD_some] using
        copies_placed copies

theorem upload_verified_seen {rclone after : Rclone}
    {failure : Option UploadFailure} (uploaded : rclone.uploadVerified file path = .ok (failure, after)) :
    (after = (rclone.run (.copyTo path)).2 ∨
      after = ((rclone.run (.copyTo path)).2.run (.lsFile path)).2) ∧
    (failure = none → after.Seen path file) := by
  rw [uploadVerified] at uploaded
  split_ifs at uploaded with failed
  · cases uploaded
    exact ⟨.inl rfl, fun none => by cases none⟩
  · cases found : ((rclone.run (.copyTo path)).2.remoteObject path).1 with
    | error err =>
      simp only [found] at uploaded
      split_ifs at uploaded
      cases uploaded
      exact ⟨.inr rfl, fun none => by cases none⟩
    | ok object =>
      simp only [found] at uploaded
      split_ifs at uploaded with duplicate size md5 <;> cases uploaded
      · exact ⟨.inr rfl, fun none => by cases none⟩
      · exact ⟨.inr rfl, fun none => by cases none⟩
      · exact ⟨.inr rfl, fun none => by cases none⟩
      · refine ⟨.inr rfl, fun _ => remote_object_seen found ?_⟩
        simp [remoteMatches, duplicate, not_not.mp size, not_not.mp md5]

section

variable {rclone after : Rclone} {failure : Option UploadFailure}
  (uploaded : rclone.uploadVerified file own = .ok (failure, after))
include uploaded

theorem upload_verified_calls : rclone.calls ⊆ after.calls := by
  have copied := (rclone.run_calls (.copyTo own)).1
  rcases (upload_verified_seen uploaded).1 with rfl | rfl
  · exact copied
  · exact List.Subset.trans copied ((rclone.run (.copyTo own)).2.run_calls (.lsFile own)).1

theorem upload_verified_spared (other : own ≠ path) (spared : rclone.Spared path) :
    after.Spared path := by
  have copied : (rclone.run (.copyTo own)).2.Spared path :=
    spared.run fun result => .inr fun entry listed => by simp [shown] at listed
  rcases (upload_verified_seen uploaded).1 with rfl | rfl
  · exact copied
  · exact copied.run (spares_file other)

end

end Rclone

/-! ### Syncs -/

section Sync

variable {repoPathFor : RelPath → String}

/-- A pass goes on: calls are added, and files for a second try, and failures. -/
private structure Later (before after : SyncState) : Prop where
  calls : before.rclone.calls ⊆ after.rclone.calls
  retry : before.retry ⊆ after.retry
  failed : before.stats.failedVerification ≤ after.stats.failedVerification

private theorem Later.refl (state : SyncState) : Later state state :=
  ⟨List.Subset.refl _, List.Subset.refl _, Nat.le_refl _⟩

private theorem Later.trans (first second third : SyncState) (before : Later first second)
    (after : Later second third) : Later first third :=
  ⟨List.Subset.trans before.calls after.calls, List.Subset.trans before.retry after.retry,
    Nat.le_trans before.failed after.failed⟩

/-- What the first pass does with a file: it matched, has been seen or is left for a second try. -/
private def Offered (objects : Dict String RemoteObject) (repoPathFor : RelPath → String) (state : SyncState)
    (entry : RelPath × L1File) : Prop :=
  remoteMatches (objects.get? (repoPathFor entry.1)) entry.2 = true ∨
    state.rclone.Seen (repoPathFor entry.1) entry.2 ∨ entry ∈ state.retry

private theorem offer_spec (objects : Dict String RemoteObject) (state : SyncState) (entry : RelPath × L1File)
    (after : SyncState) (offered : state.offer objects repoPathFor entry = .ok after) :
    Later state after ∧ Offered objects repoPathFor after entry := by
  rw [SyncState.offer] at offered
  split_ifs at offered with same
  · cases offered
    exact ⟨⟨List.Subset.refl _, List.Subset.refl _, Nat.le_refl _⟩, .inl same⟩
  · obtain ⟨⟨failure, rclone⟩, uploaded, done⟩ := bind_ok offered
    obtain ⟨-, seen⟩ := Rclone.upload_verified_seen uploaded
    have kept := Rclone.upload_verified_calls uploaded
    cases failure with
    | none =>
      cases done
      exact ⟨⟨kept, List.Subset.refl _, Nat.le_refl _⟩, .inr (.inl (seen rfl))⟩
    | some failure =>
      cases done
      exact ⟨⟨kept, subset_append_left _ _, Nat.le_refl _⟩,
        .inr (.inr (mem_append_right _ (mem_singleton_self _)))⟩

private theorem offered_stays (objects : Dict String RemoteObject) (state after : SyncState)
    (entry : RelPath × L1File) (later : Later state after)
    (offered : Offered objects repoPathFor state entry) : Offered objects repoPathFor after entry :=
  offered.imp_right (Or.imp (·.later later.calls) (later.retry ·))

/-- What the second try does with a file. -/
private def Tried (repoPathFor : RelPath → String) (state : SyncState) (entry : RelPath × L1File) : Prop :=
  state.rclone.Seen (repoPathFor entry.1) entry.2 ∨ 0 < state.stats.failedVerification

private theorem again_spec {raises : Bool} (state : SyncState) (entry : RelPath × L1File) (after : SyncState)
    (tried : state.again repoPathFor raises entry = .ok after) :
    Later state after ∧ Tried repoPathFor after entry := by
  obtain ⟨⟨failure, rclone⟩, uploaded, done⟩ := bind_ok tried
  obtain ⟨-, seen⟩ := Rclone.upload_verified_seen uploaded
  have kept := Rclone.upload_verified_calls uploaded
  cases failure with
  | none =>
    cases done
    exact ⟨⟨kept, List.Subset.refl _, Nat.le_refl _⟩, .inl (seen rfl)⟩
  | some failure =>
    cases raises with
    | true => cases done
    | false =>
      cases done
      exact ⟨⟨kept, List.Subset.refl _, Nat.le_succ _⟩, .inr (Nat.succ_pos _)⟩

private theorem tried_stays (state after : SyncState) (entry : RelPath × L1File) (later : Later state after)
    (tried : Tried repoPathFor state entry) : Tried repoPathFor after entry :=
  tried.imp (·.later later.calls) (Nat.lt_of_lt_of_le · later.failed)

section

variable {rclone : Rclone} (synced : syncTree rclone dir repoPathFor raises files = .ok state)
include synced

/-- A sync without failures has seen a copy of every file, or matched it in a listing taken for one
of the remote root. -/
theorem sync_tree_seen :
    rclone.calls ⊆ state.rclone.calls ∧ (state.stats.failedVerification = 0 → ∀ rel file,
      files.get? rel = some file → state.rclone.Seen (repoPathFor rel) file ∨
        NestedMatch dir (rclone.run (.lsTree dir true)).1.printed (repoPathFor rel) file) := by
  obtain ⟨listed, objects, rest⟩ := bind_ok synced
  obtain ⟨pass, offered, retried⟩ := bind_ok rest
  obtain ⟨passed, each⟩ := foldlM_done Later.refl Later.trans (offer_spec listed.1)
    (offered_stays listed.1) offered
  obtain ⟨again, tried⟩ := foldlM_done Later.refl Later.trans again_spec tried_stays retried
  have whole := List.Subset.trans passed.calls again.calls
  have first : rclone.calls ⊆ listed.2.calls := by
    rw [(Rclone.remote_objects_ok objects).2]
    exact (rclone.run_calls _).1
  refine ⟨List.Subset.trans first whole, fun clean rel file held => ?_⟩
  rcases each (rel, file) (Dict.mem_entries_iff.mpr held) with same | seen | left
  · exact (Rclone.remote_objects_seen objects same).imp_left (·.later whole)
  · exact .inl (seen.later again.calls)
  · exact .inl ((tried _ left).resolve_right fun failed => by omega)

/-- A sync lists the path of no file that its listing matched. -/
theorem sync_tree_spared (tree : ∀ result, Spares path (.lsTree dir true, result))
    (matched : ∀ objects after, rclone.remoteObjects dir = .ok (objects, after) →
      ∀ entry ∈ files.entries, repoPathFor entry.1 = path →
        remoteMatches (objects.get? path) entry.2 = true)
    (spared : rclone.Spared path) : state.rclone.Spared path := by
  obtain ⟨listed, objects, rest⟩ := bind_ok synced
  obtain ⟨pass, offered, retried⟩ := bind_ok rest
  have first : listed.2.Spared path := by
    rw [(Rclone.remote_objects_ok objects).2]
    exact spared.run tree
  -- The files left for a second try are others, too.
  let Inv (state : SyncState) : Prop :=
    state.rclone.Spared path ∧ ∀ entry ∈ state.retry, repoPathFor entry.1 ≠ path
  have passed : Inv pass := by
    refine foldlM_keeps (fun state entry ended among inv went => ?_) ⟨first, by simp⟩ offered
    rw [SyncState.offer] at went
    split_ifs at went with same
    · cases went
      exact inv
    · have other : repoPathFor entry.1 ≠ path := by
        intro here
        rw [here] at same
        exact same (matched _ _ objects entry among here)
      obtain ⟨⟨failure, rclone⟩, uploaded, done⟩ := bind_ok went
      have later := Rclone.upload_verified_spared uploaded other inv.1
      cases failure with
      | none =>
        cases done
        exact ⟨later, inv.2⟩
      | some failure =>
        cases done
        exact ⟨later, forall_mem_append.mpr ⟨inv.2, forall_mem_singleton.mpr other⟩⟩
  let Spared (state : SyncState) : Prop := state.rclone.Spared path
  suffices ended : Spared state from ended
  refine foldlM_keeps (fun state entry ended among (inv : Spared state) went => ?_) passed.1 retried
  obtain ⟨⟨failure, rclone⟩, uploaded, done⟩ := bind_ok went
  have later := Rclone.upload_verified_spared uploaded (passed.2 entry among) inv
  cases failure with
  | none =>
    cases done
    exact later
  | some failure =>
    cases raises with
    | true => cases done
    | false =>
      cases done
      exact later

end

end Sync

/-! ### The deletion -/

private theorem remote_files_ok {rclone after : Rclone}
    (listed : rclone.remoteFiles dir = .ok (files, after)) :
    files = filesIn (dir ++ "/") (reframe dir (rclone.run (.lsTree dir false)).1.printed) ∧
      after = (rclone.run (.lsTree dir false)).2 := by
  obtain ⟨found, printed, done⟩ := bind_ok listed
  cases done
  obtain ⟨same, last, -⟩ := Rclone.lsjson_recursive_ok printed
  exact ⟨congrArg _ same, last⟩

/-- An offload that comes through: both syncs without failures, and two listings of `l1`. -/
theorem consult_ok {args : OffloadArgs} (went : args.consult rclone = .ok consulted) :
    ∃ l1 manifests listed, syncL1Tree rclone args.archive = .ok l1 ∧
      syncManifestTree l1.rclone args.manifests = .ok manifests ∧ l1.stats.failedVerification = 0 ∧
      manifests.rclone.remoteObjects "l1" = .ok listed ∧
      listed.2.remoteFiles "l1" = .ok (consulted.files, consulted.rclone) ∧
      consulted.verified = verifiedPaths args.archive listed.1 := by
  obtain ⟨l1, synced, rest⟩ := bind_ok went
  obtain ⟨manifests, others, rest⟩ := bind_ok rest
  split_ifs at rest with failed
  · cases rest
  obtain ⟨listed, objects, rest⟩ := bind_ok rest
  obtain ⟨files, names, done⟩ := bind_ok rest
  cases done
  rw [not_or, Nat.not_lt, Nat.le_zero] at failed
  exact ⟨l1, manifests, listed, synced, others, failed.1, objects, names, rfl⟩

section

variable {args : OffloadArgs} (went : args.consult { results } = .ok consulted)
  (held : args.archive.get? rel = some file)
include went held

/-- Where the remote raised no objection, a copy of every archive file has been seen, or it matched
in the first listing, which was taken for one of the remote root. -/
theorem consult_seen : consulted.rclone.Seen (l1RepoPath rel) file ∨
    NestedMatch "l1" (results 0).printed (l1RepoPath rel) file := by
  obtain ⟨l1, manifests, listed, synced, others, clean, objects, names, -⟩ := consult_ok went
  have later : l1.rclone.calls ⊆ consulted.rclone.calls := by
    rw [(remote_files_ok names).2, (Rclone.remote_objects_ok objects).2]
    exact List.Subset.trans (sync_tree_seen others).1
      (List.Subset.trans (Rclone.run_calls _ _).1 (Rclone.run_calls _ _).1)
  exact ((sync_tree_seen synced).2 clean rel file held).imp_left (·.later later)

/-- For a file that matched in the first listing, only listings of `l1` can show a copy. -/
theorem consult_spared
    (nested : NestedMatch "l1" (results 0).printed (l1RepoPath rel) file) :
    consulted.rclone.Spared (l1RepoPath rel) := by
  obtain ⟨l1, manifests, listed, synced, others, -, objects, names, -⟩ := consult_ok went
  have trees (withHash : Bool) (result : RcloneResult) :
      Spares (l1RepoPath rel) (.lsTree "l1" withHash, result) := .inl rfl
  have first : l1.rclone.Spared (l1RepoPath rel) := by
    refine sync_tree_spared synced (trees true) (fun objects after listed entry among same => ?_)
      (fun call made => by cases made)
    obtain rfl := l1_repo_path_injective same
    obtain rfl := Option.some.inj ((Dict.mem_entries_iff.mp among).symm.trans held)
    obtain ⟨gathered, -⟩ := Rclone.remote_objects_ok listed
    change objectsIn "l1/" (reframe "l1" (results 0).printed) = .ok objects at gathered
    rw [reframe, if_pos nested.1] at gathered
    exact (objects_match_iff gathered _ _).mpr
      ⟨by simp [l1RepoPath], nested.2⟩
  have second : manifests.rclone.Spared (l1RepoPath rel) := by
    rw [syncManifestTree] at others
    refine sync_tree_spared others (spares_manifests rel) (fun _ _ _ entry _ same => ?_) first
    have apart := congrArg head? (String.ofList_inj.mp same)
    simp at apart
  rw [(remote_files_ok names).2, (Rclone.remote_objects_ok objects).2]
  exact (second.run (trees true)).run (trees false)

end

/-- The pass over the archive deletes the file: it comes before every name with an impossible date,
its retention is over, it is among the names listed last and its partition is gone. -/
def OffloadArgs.Unlinks (args : OffloadArgs) (files : List String) (rel : RelPath) : Prop :=
  rel ∈ datedFiles args.archive ∧
    droppedL1 args.archiveCutoff (confirmed args.journal files) rel = true

/-- The answers mislead the offload about a file: it matches in the first listing taken for one of
the remote root, and no listing of `l1` shows a copy under its path. -/
structure Misled (results : Nat → RcloneResult) (calls : List (Command × RcloneResult))
    (path : String) (file : L1File) : Prop where
  nested : NestedMatch "l1" (results 0).printed path file
  unseen : ∀ call ∈ calls, call.1.lists "l1" → ¬ ShowsCopy call path file

private theorem unlinked_away {args : OffloadArgs} (unlinked : args.Unlinks files rel)
    (given : args.journal = some journal) (named : l0PartitionForL1 (l1RepoPath rel) = some dir) :
    dirExists journal dir = false := by
  have listed : l1RepoPath rel ∈ confirmed args.journal files := by
    have dropped := unlinked.2
    rw [droppedL1] at dropped
    split at dropped
    · simp only [Bool.and_eq_true, contains_iff_mem] at dropped
      exact dropped.2
    · cases dropped
  rw [given] at listed
  simpa [named] using (mem_filter.mp listed).2

private theorem run_eod_offload_some {args : OffloadArgs} {results : Option (Nat → RcloneResult)}
    (held : args.archive.get? rel = some file) :
    (args.runEodOffload results).archive.get? rel = none ↔
      ∃ consulted, (args.runEodOffload results).consulted = some consulted ∧
        args.Unlinks consulted.files rel := by
  rw [OffloadArgs.runEodOffload]
  cases results.map fun results => args.consult { results } with
  | none => simp [held]
  | some outcome =>
    cases outcome with
    | error err => simp [held]
    | ok consulted =>
      simp only [prune_local_l1_get?, held, Option.some.injEq, exists_eq_left']
      refine ⟨fun gone => ?_, fun unlinked => if_pos unlinked⟩
      by_contra kept
      rw [OffloadArgs.Unlinks] at kept
      rw [if_neg kept] at gone
      cases gone

private theorem consulted_went {args : OffloadArgs}
    (told : (args.runEodOffload results).consulted = some consulted) :
    ∃ answers, results = some answers ∧ args.consult { results := answers } = .ok consulted := by
  rw [OffloadArgs.runEodOffload] at told
  cases run : results.map fun results => args.consult { results } with
  | none =>
    rw [run] at told
    cases told
  | some outcome =>
    obtain ⟨answers, given, went⟩ := Option.map_eq_some_iff.mp run
    cases outcome with
    | error err =>
      rw [run] at told
      cases told
    | ok own =>
      rw [run] at told
      cases told
      exact ⟨answers, given, went⟩

/-- The end-of-day sequence and the offload agree on what becomes of the archive and on what is
verified, when the sequence is given what the last two listings printed. -/
theorem offload_as_listed {env : Housekeeping} {results : Nat → RcloneResult}
    (went : (OffloadArgs.mk storage.archive manifests (some storage.journal) env.archiveCutoff).consult
      { results } = .ok consulted) :
    ∃ before entries names, consulted.rclone.calls =
      before ++ [(.lsTree "l1" true, entries), (.lsTree "l1" false, names)] ∧
      (env.offload = .listed uploaded entries.printed names.printed →
        (env.runEodOffload storage).archive = ((OffloadArgs.mk storage.archive manifests
          (some storage.journal) env.archiveCutoff).runEodOffload (some results)).archive ∧
        ∀ verified, (env.runEodOffload storage).verified = some verified →
          verified = consulted.verified) := by
  obtain ⟨l1, synced, listed, -, -, -, objects, names, verified⟩ := consult_ok went
  obtain ⟨gathered, after⟩ := Rclone.remote_objects_ok objects
  obtain ⟨files, last⟩ := remote_files_ok names
  rw [after] at last files
  refine ⟨synced.rclone.calls, (synced.rclone.run (.lsTree "l1" true)).1,
    ((synced.rclone.run (.lsTree "l1" true)).2.run (.lsTree "l1" false)).1, ?_, fun given => ?_⟩
  · rw [last]
    simp only [Rclone.run, append_assoc, singleton_append]
  · change objectsIn "l1/" _ = _ at gathered
    rw [Housekeeping.runEodOffload, given, OffloadArgs.runEodOffload, Option.map_some, went]
    simp only [gathered, verified, files]
    split
    · exact ⟨rfl, fun _ none => by cases none⟩
    · exact ⟨rfl, fun _ same => (Option.some.inj same).symm⟩

/-! ### A directory called like its parent -/

def Sample.oldParquet : RelPath :=
  ⟨["kis", "krx", "regular", "H0STCNT0", "dt=2026-01-02.parquet"], by decide, by decide⟩

def Sample.oldBytes : L1File := ⟨10, "aa", 0, some 1⟩

/-- One archive file long past its retention, and no journal. -/
def Sample.oldArchive : OffloadArgs where
  archive := Dict.ofList [(Sample.oldParquet, Sample.oldBytes)]
  manifests := ∅
  journal := some ∅
  archiveCutoff := 800000

/-- The remote holds other bytes under the file's path, and the file's own in `l1/l1`. -/
def Sample.nested : Nat → RcloneResult
  | 1 => ⟨3, none⟩
  | _ => ⟨0, some [⟨"kis/krx/regular/H0STCNT0/dt=2026-01-02.parquet", false, some 9, some "bb"⟩,
      ⟨"l1/kis/krx/regular/H0STCNT0/dt=2026-01-02.parquet", false, some 10, some "aa"⟩]⟩

end KrxAlpha.Offload
