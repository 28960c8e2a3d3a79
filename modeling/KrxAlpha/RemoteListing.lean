import KrxAlpha.Retention

/-! What a recursive listing of the remote says about local archive files. The
remote keeps several files under one name, so a listing is first gathered by
path; a path is verified when all its copies are the local file. -/
namespace KrxAlpha
open List

/-- One listed file under the remote root. -/
structure RemoteEntry where
  path : String
  size : Nat
  md5 : Option String
  deriving DecidableEq

structure RemoteObject where
  size : Nat
  md5 : Option String
  duplicate : Bool := false
  deriving DecidableEq

/-- One step of `_objects_by_path`: copies under one name stay verifiable only while
they are identical. -/
def noteObject (head : String) (objects : Dict String RemoteObject) (entry : RemoteEntry) :
    Dict String RemoteObject :=
  if head.toList.isPrefixOf entry.path.toList then
    match objects.get? entry.path with
    | some prior =>
      let conflict := prior.duplicate || prior.size != entry.size || prior.md5.isNone ||
        prior.md5 != entry.md5
      objects.set entry.path ⟨entry.size, entry.md5, conflict⟩
    | none => objects.set entry.path ⟨entry.size, entry.md5, false⟩
  else objects

def objectsByPath (head : String) (entries : List RemoteEntry) : Dict String RemoteObject :=
  entries.foldl (noteObject head) ∅

/-- `GDriveArchiver.matches`. -/
def remoteMatches (remote : Option RemoteObject) (file : L1File) : Bool :=
  match remote with
  | none => false
  | some object =>
    if object.duplicate || object.md5.isNone then false
    else object.size == file.size && object.md5 == some file.md5

/-- `GDriveArchiver.verified_paths` on one listing. -/
def verifiedPaths (archive : Dict RelPath L1File) (objects : Dict String RemoteObject) :
    List String :=
  let matched := archive.entries.filter fun entry =>
    remoteMatches (objects.get? (l1RepoPath entry.1)) entry.2
  matched.map fun entry => l1RepoPath entry.1

/-- Every listed copy under the path is this file, and there is one. -/
def ListedCopy (entries : List RemoteEntry) (path : String) (file : L1File) : Prop :=
  (∃ entry ∈ entries, entry.path = path) ∧
    ∀ entry ∈ entries, entry.path = path → entry.size = file.size ∧ entry.md5 = some file.md5

section Listing
variable {head : String}

/-- What the objects noted so far say about the entries seen. -/
private structure Noted (head path : String) (objects : Dict String RemoteObject)
    (seen : List RemoteEntry) : Prop where
  unseen : objects.get? path = none → ∀ entry ∈ seen, entry.path = path →
    ¬ head.toList.isPrefixOf path.toList
  under : ∀ object, objects.get? path = some object → head.toList.isPrefixOf path.toList
  copied : ∀ object, objects.get? path = some object → (∃ entry ∈ seen, entry.path = path) ∧
    (object.duplicate = false → ∀ entry ∈ seen, entry.path = path →
      entry.size = object.size ∧ entry.md5 = object.md5)

private theorem note_elsewhere (elsewhere : path ≠ entry.path) :
    (noteObject head objects entry).get? path = objects.get? path := by
  unfold noteObject
  split
  · split <;> exact Dict.get?_set_of_ne elsewhere
  · rfl

private theorem note_here (objects : Dict String RemoteObject)
    (under : head.toList.isPrefixOf entry.path.toList = true) :
    ∃ conflict, (noteObject head objects entry).get? entry.path =
        some ⟨entry.size, entry.md5, conflict⟩ ∧
      (conflict = false → ∀ prior, objects.get? entry.path = some prior →
        prior.duplicate = false ∧ prior.size = entry.size ∧ prior.md5 = entry.md5) := by
  unfold noteObject
  rw [if_pos under]
  cases objects.get? entry.path with
  | none => exact ⟨false, by simp, by simp⟩
  | some prior =>
    refine ⟨_, by simp; rfl, fun calm other same => ?_⟩
    cases same
    simp only [Bool.or_eq_false_iff, bne_eq_false_iff_eq] at calm
    exact ⟨calm.1.1.1, calm.1.1.2, calm.2⟩

private theorem noted_step (noted : Noted head path objects seen) (entry : RemoteEntry) :
    Noted head path (noteObject head objects entry) (seen ++ [entry]) := by
  by_cases here : path = entry.path
  · subst here
    by_cases under : head.toList.isPrefixOf entry.path.toList = true
    · obtain ⟨conflict, now, agreed⟩ := note_here objects under
      refine ⟨fun gone => ?_, fun _ _ => under, fun object found => ?_⟩
      · rw [now] at gone
        cases gone
      · obtain rfl := Option.some.inj (now.symm.trans found)
        refine ⟨⟨entry, by simp, rfl⟩, fun calm other member path => ?_⟩
        rcases mem_append.mp member with early | last
        · -- An entry seen before has left a prior object, and that one agrees.
          cases prior : objects.get? entry.path with
          | none => exact absurd under (noted.unseen prior other early path)
          | some object =>
            obtain ⟨unique, size, md5⟩ := agreed calm object prior
            obtain ⟨same_size, same_md5⟩ := (noted.copied object prior).2 unique other early path
            exact ⟨same_size.trans size, same_md5.trans md5⟩
        · rw [mem_singleton.mp last]
          exact ⟨rfl, rfl⟩
    · have kept : noteObject head objects entry = objects := if_neg under
      rw [kept]
      exact ⟨fun _ _ _ _ => under, noted.under,
        fun object found => absurd (noted.under object found) under⟩
  · have elsewhere : ∀ other ∈ seen ++ [entry], other.path = path → other ∈ seen := by
      intro other member same
      refine (mem_append.mp member).resolve_right fun last => here ?_
      rw [← same, mem_singleton.mp last]
    constructor
    · rw [note_elsewhere here]
      exact fun gone other member same => noted.unseen gone other (elsewhere other member same) same
    · rw [note_elsewhere here]
      exact noted.under
    · rw [note_elsewhere here]
      intro object found
      obtain ⟨⟨other, member, same⟩, copies⟩ := noted.copied object found
      exact ⟨⟨other, mem_append_left _ member, same⟩,
        fun calm other member same => copies calm other (elsewhere other member same) same⟩

private theorem noted_all (path : String) (entries : List RemoteEntry) :
    Noted head path (objectsByPath head entries) entries := by
  have run : ∀ (rest seen : List RemoteEntry) (objects : Dict String RemoteObject),
      Noted head path objects seen →
      Noted head path (rest.foldl (noteObject head) objects) (seen ++ rest) := by
    intro rest
    induction rest with
    | nil => intro seen objects noted; simpa using noted
    | cons entry rest ih =>
      intro seen objects noted
      simpa using ih _ _ (noted_step noted entry)
  have start : Noted head path ∅ [] := by
    refine ⟨fun _ entry member => by simp at member, ?_, ?_⟩ <;> intro object found <;> cases found
  exact run entries [] ∅ start

section

variable (same : remoteMatches ((objectsByPath head entries).get? path) file = true)
include same

/-- A match means that every listed copy is the local file. -/
theorem remote_matches_listed : ListedCopy entries path file := by
  cases found : (objectsByPath head entries).get? path with
  | none => simp [found, remoteMatches] at same
  | some object =>
    obtain ⟨listed, copies⟩ := (noted_all path entries).copied object found
    simp only [found, remoteMatches] at same
    split at same
    · cases same
    · rename_i unique
      simp only [Bool.or_eq_true, not_or, Bool.not_eq_true] at unique
      simp only [Bool.and_eq_true, beq_iff_eq] at same
      refine ⟨listed, fun entry member here => ?_⟩
      obtain ⟨size, md5⟩ := copies unique.1 entry member here
      exact ⟨size.trans same.1, md5.trans same.2⟩

/-- Nothing matches outside the part of the remote that was listed. -/
theorem remote_matches_under : head.toList.isPrefixOf path.toList := by
  cases found : (objectsByPath head entries).get? path with
  | none => simp [found, remoteMatches] at same
  | some object => exact (noted_all path entries).under object found

end

/-- Identical copies with a hash match, in whatever order they are listed. -/
theorem remote_matches_of_listed
    (under : head.toList.isPrefixOf path.toList) (copies : ListedCopy entries path file) :
    remoteMatches ((objectsByPath head entries).get? path) file = true := by
  obtain ⟨⟨first, listed, here⟩, same⟩ := copies
  cases found : (objectsByPath head entries).get? path with
  | none => exact absurd under ((noted_all path entries).unseen found first listed here)
  | some object =>
    have run : ∀ (rest : List RemoteEntry) (objects : Dict String RemoteObject),
        (∀ entry ∈ rest, entry.path = path → entry.size = file.size ∧ entry.md5 = some file.md5) →
        (∀ object, objects.get? path = some object → object = ⟨file.size, some file.md5, false⟩) →
        ∀ object, (rest.foldl (noteObject head) objects).get? path = some object →
          object = ⟨file.size, some file.md5, false⟩ := by
      intro rest
      induction rest with
      | nil => exact fun _ _ plain => plain
      | cons entry rest ih =>
        intro objects same plain
        obtain ⟨here, later⟩ := forall_mem_cons.mp same
        refine ih _ later fun object found => ?_
        by_cases own : path = entry.path
        · obtain ⟨size, md5⟩ := here own.symm
          rw [own] at plain found under
          rw [noteObject, if_pos under] at found
          cases prior : objects.get? entry.path with
          | none =>
            simp only [prior, Dict.get?_set_self, Option.some.injEq] at found
            rw [← found, size, md5]
          | some before =>
            simp only [prior, Dict.get?_set_self, Option.some.injEq] at found
            rw [← found, plain before prior, size, md5]
            simp
        · rw [note_elsewhere own] at found
          exact plain object found
    rw [run entries ∅ same (by simp) object found]
    simp [remoteMatches]

end Listing

/-- The verified paths are those of the local files whose listed copies match. -/
theorem mem_verified_paths : l1RepoPath rel ∈ verifiedPaths archive objects ↔
      ∃ file, archive.get? rel = some file ∧
        remoteMatches (objects.get? (l1RepoPath rel)) file = true := by
  simp only [verifiedPaths, mem_map, mem_filter]
  constructor
  · rintro ⟨⟨other, file⟩, ⟨member, same⟩, path⟩
    obtain rfl := l1_repo_path_injective path
    exact ⟨file, Dict.mem_entries_iff.mp member, same⟩
  · rintro ⟨file, found, same⟩
    exact ⟨(rel, file), ⟨Dict.mem_entries_iff.mpr found, same⟩, rfl⟩

end KrxAlpha
