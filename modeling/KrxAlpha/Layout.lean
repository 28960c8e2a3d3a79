import Mathlib.Data.List.TakeWhile
import KrxAlpha.ClientIds

/-! Paths of journal partitions and of the archive files made from them. The
deletion gate compares the repository path of an archive file with a set of
such paths, and the remote purge reads a partition's directory back from the
path, so both directions have to name the same partition. -/
namespace KrxAlpha
open List hiding head tail

/-- A relative path by its components. -/
structure RelPath where
  parts : List String
  nonempty : parts ≠ []
  plain : ∀ part ∈ parts, part ≠ "" ∧ '/' ∉ part.toList
  deriving DecidableEq

namespace RelPath

def name (path : RelPath) : String := path.parts.getLast path.nonempty

/-- The characters of `as_posix()`, the components behind one another. -/
def chars (path : RelPath) : List Char := ['/'].intercalate (path.parts.map String.toList)

theorem chars_injective {first second : RelPath} (same : first.chars = second.chars) :
    first = second := by
  have split : ∀ path : RelPath, path.chars.splitOn '/' = path.parts.map String.toList := by
    intro path
    refine splitOn_intercalate '/' (forall_mem_map.mpr ?_) (by simpa using path.nonempty)
    exact fun text inside => (path.plain text inside).2
  have parts : first.parts = second.parts :=
    map_injective_iff.mpr (fun _ _ => String.toList_inj.mp)
      ((split first).symm.trans ((congrArg _ same).trans (split second)))
  cases first
  cases second
  cases parts
  rfl

end RelPath

/-- `rel.parent / f"{rel.name}.parquet"`. -/
def l1RelpathForL0Partition (rel : RelPath) : RelPath where
  parts := rel.parts.dropLast ++ [rel.name ++ ".parquet"]
  nonempty := by simp
  plain := by
    have own := rel.plain rel.name (List.getLast_mem rel.nonempty)
    exact List.forall_mem_append.mpr ⟨fun part early => rel.plain part (List.dropLast_subset _ early),
      List.forall_mem_singleton.mpr ⟨by simp, by simpa using own.2⟩⟩

def l1RepoPath (rel : RelPath) : String := String.ofList ("l1/".toList ++ rel.chars)

/-- The repository path of the archive file of a journal partition. -/
def l1PathOf (part : RelPath) : String := l1RepoPath (l1RelpathForL0Partition part)

/-- `l0/<rel>`, where the remote keeps a journal partition. -/
def l0RepoDir (part : RelPath) : String := String.ofList ("l0/".toList ++ part.chars)

private theorem intercalate_last (front : List (List Char)) (last tail : List Char) :
    ['/'].intercalate (front ++ [last ++ tail]) = ['/'].intercalate (front ++ [last]) ++ tail := by
  induction front with
  | nil => simp [intercalate]
  | cons first rest ih =>
    cases rest with
    | nil => simp [intercalate]
    | cons second others =>
      simp only [cons_append, intercalate_cons_cons] at ih ⊢
      rw [ih]
      simp

theorem l1_relpath_chars (rel : RelPath) :
    (l1RelpathForL0Partition rel).chars = rel.chars ++ ".parquet".toList := by
  have whole : rel.parts.dropLast ++ [rel.name] = rel.parts := dropLast_append_getLast _
  simp only [l1RelpathForL0Partition, RelPath.chars, map_append, map_cons, map_nil,
    String.toList_append]
  rw [intercalate_last, ← whole]
  simp

theorem l1_repo_path_injective (same : l1RepoPath first = l1RepoPath second) : first = second :=
  RelPath.chars_injective (append_cancel_left (String.ofList_inj.mp same))

theorem l1_relpath_injective
    (same : l1RelpathForL0Partition first = l1RelpathForL0Partition second) : first = second := by
  have files := congrArg RelPath.chars same
  rw [l1_relpath_chars, l1_relpath_chars] at files
  exact RelPath.chars_injective (append_cancel_right files)

theorem l0_repo_dir_injective (same : l0RepoDir first = l0RepoDir second) : first = second :=
  RelPath.chars_injective (append_cancel_left (String.ofList_inj.mp same))

section Dates

def isLeap (year : Nat) : Bool := year % 4 == 0 && (year % 100 != 0 || year % 400 == 0)

def daysInMonth (year month : Nat) : Nat :=
  if month = 2 then if isLeap year then 29 else 28
  else if month = 4 ∨ month = 6 ∨ month = 9 ∨ month = 11 then 30
  else 31

/-- `date.toordinal()`. -/
def toOrdinal (year month day : Nat) : Nat :=
  let before := year - 1
  before * 365 + before / 4 - before / 100 + before / 400 +
    ((List.range month).drop 1).foldl (fun days earlier => days + daysInMonth year earlier) 0 + day

/-- The shape `\d{4}-\d{2}-\d{2}`. -/
def isoShape : List Char → Bool
  | [a, b, c, d, '-', e, f, '-', g, h] => [a, b, c, d, e, f, g, h].all Char.isDigit
  | _ => false

/-- `date.fromisoformat`, as an ordinal, on a text of that shape. -/
def dateOfIso (text : List Char) : Except Error Nat :=
  let year := Nat.ofDigitChars 10 (text.take 4) 0
  let month := Nat.ofDigitChars 10 ((text.drop 5).take 2) 0
  let day := Nat.ofDigitChars 10 (text.drop 8) 0
  if year < 1 then .error (.valueError s!"year {year} is out of range")
  else if month < 1 ∨ 12 < month then .error (.valueError "month must be in 1..12")
  else if day < 1 ∨ daysInMonth year month < day then
    .error (.valueError "day is out of range for month")
  else .ok (toOrdinal year month day)

/-- The date text behind a leading `dt=`, with what follows it. -/
def datedHead (text : List Char) : Option (List Char × List Char) :=
  match "dt=".toList.isPrefixOf? text with
  | none => none
  | some tail =>
    if isoShape (tail.take 10) then some (tail.take 10, tail.drop 10) else none

/-- The date of a name that is `dt=YYYY-MM-DD` as a whole; a date that no calendar
has is a `ValueError`. -/
def fullmatchDate (name : String) : Except Error (Option Nat) :=
  match datedHead name.toList with
  | some (iso, []) => (dateOfIso iso).map some
  | _ => .ok none

end Dates

/-- What `rpartition("/")` returns before and after the last separator. -/
def beforeLastSlash (text : List Char) : List Char := (text.reverse.dropWhile (· != '/')).tail.reverse

def afterLastSlash (text : List Char) : List Char := (text.reverse.takeWhile (· != '/')).reverse

/-- `l0_partition_for_l1`: the journal directory an archive object supersedes. The pattern's `$`
also matches before a final newline, and eight characters are then cut off all the same. -/
def l0PartitionForL1 (repoPath : String) : Option String :=
  match "l1/".toList.isPrefixOf? repoPath.toList with
  | none => none
  | some rest =>
    if rest = "snapshot".toList ∨ "snapshot/".toList.isPrefixOf rest then none
    else if rest = "derived".toList ∨ "derived/".toList.isPrefixOf rest then none
    else if '/' ∉ rest then none
    else if beforeLastSlash rest = [] then none
    else match datedHead (afterLastSlash rest) with
      | none => none
      | some (iso, tail) =>
        if (tail = ".parquet".toList ∨ tail = ".parquet\n".toList) ∧ (dateOfIso iso).isOk then
          some (String.ofList ("l0/".toList ++ (beforeLastSlash rest ++
            '/' :: (afterLastSlash rest).take ((afterLastSlash rest).length - ".parquet".toList.length))))
        else none

private theorem split_at_last (inside : '/' ∈ rest) :
    rest = beforeLastSlash rest ++ '/' :: afterLastSlash rest := by
  have whole := takeWhile_append_dropWhile (p := (· != '/')) (l := rest.reverse)
  cases dropped : rest.reverse.dropWhile (· != '/') with
  | nil =>
    have passed := dropWhile_eq_nil_iff.mp dropped '/' (by simpa using inside)
    simp at passed
  | cons first back =>
    have slash : first = '/' := by
      have head := head_dropWhile_not (· != '/') (l := rest.reverse) (by simp [dropped])
      simpa [dropped] using head
    rw [dropped, slash] at whole
    have reversed := congrArg reverse whole
    simpa [beforeLastSlash, afterLastSlash, dropped] using reversed.symm

private theorem dated_head_split
    (dated : datedHead text = some (iso, tail)) : ∃ front, text = front ++ tail := by
  unfold datedHead at dated
  split at dated
  · cases dated
  · rename_i behind found
    split at dated
    · obtain ⟨rfl, rfl⟩ := Prod.mk.inj (Option.some.inj dated)
      obtain rfl := isPrefixOf?_eq_some_iff_append_eq.mp found
      exact ⟨"dt=".toList ++ behind.take 10, by simp⟩
    · cases dated

/-- What an archive object supersedes has the object's own relative path, or ends in a dot where a
newline ends the object's. -/
theorem l0_partition_for_l1_inversion (found : l0PartitionForL1 path = some dir) :
    ∃ rest : List Char, dir = String.ofList ("l0/".toList ++ rest) ∧
      (path = String.ofList ("l1/".toList ++ rest ++ ".parquet".toList) ∨ rest.getLast? = some '.') := by
  unfold l0PartitionForL1 at found
  split at found
  · cases found
  · rename_i rest behind
    split_ifs at found with snapshot derived flat top
    split at found
    · cases found
    · rename_i iso tail dated
      split_ifs at found with closed
      obtain ⟨front, named⟩ := dated_head_split dated
      have whole := split_at_last flat
      refine ⟨_, (Option.some.inj found).symm, ?_⟩
      rcases closed.1 with plain | broken
      · left
        rw [plain] at named
        have trimmed : (afterLastSlash rest).take
            ((afterLastSlash rest).length - ".parquet".toList.length) = front := by
          rw [named]
          simp
        have inner : beforeLastSlash rest ++ '/' :: front ++ ".parquet".toList = rest :=
          calc beforeLastSlash rest ++ '/' :: front ++ ".parquet".toList
              = beforeLastSlash rest ++ '/' :: (front ++ ".parquet".toList) := List.append_assoc _ _ _
            _ = beforeLastSlash rest ++ '/' :: afterLastSlash rest := by rw [named]
            _ = rest := whole.symm
        rw [trimmed, List.append_assoc "l1/".toList, inner,
          isPrefixOf?_eq_some_iff_append_eq.mp behind, String.ofList_toList]
      · right
        have trimmed : (afterLastSlash rest).take
            ((afterLastSlash rest).length - ".parquet".toList.length) = front ++ ['.'] := by
          have cut : (front ++ ".parquet\n".toList).length - ".parquet".toList.length =
            front.length + 1 := by simp
          rw [named, broken, cut, take_append, take_of_length_le (by omega)]
          simp
        rw [trimmed]
        simp [getLast?_append, getLast?_cons]

private theorem dated_undotted (dated : datedHead text = some (iso, [])) : text.getLast? ≠ some '.' := by
  unfold datedHead at dated
  split at dated
  · cases dated
  · rename_i behind found
    split_ifs at dated with shape
    obtain ⟨rfl, rest⟩ := Prod.mk.inj (Option.some.inj dated)
    obtain rfl := isPrefixOf?_eq_some_iff_append_eq.mp found
    rw [take_of_length_le (drop_eq_nil_iff.mp rest)] at shape
    unfold isoShape at shape
    split at shape
    · intro dot
      simp only [all_cons, all_nil, Bool.and_true, Bool.and_eq_true] at shape
      obtain ⟨_, _, _, _, _, _, _, digit⟩ := shape
      simp only [getLast?_append, getLast?_cons, Option.some_or, getLast?_nil, Option.getD_none,
        Option.getD_some, Option.some.injEq] at dot
      rw [dot] at digit
      exact absurd digit (by decide)
    · cases shape

/-- A partition with a date for its name is superseded by its own object only. -/
theorem l0_partition_for_l1_own (dated : datedHead part.name.toList = some (iso, []))
    (found : l0PartitionForL1 path = some (l0RepoDir part)) : path = l1PathOf part := by
  obtain ⟨rest, same, from_path⟩ := l0_partition_for_l1_inversion found
  obtain rfl : part.chars = rest := append_cancel_left (String.ofList_inj.mp same)
  have undotted : part.chars.getLast? ≠ some '.' := by
    have named : part.parts = part.parts.dropLast ++ [part.name] := (dropLast_append_getLast _).symm
    have last := intercalate_last (part.parts.dropLast.map String.toList) [] part.name.toList
    rw [RelPath.chars, named, map_append, map_cons, map_nil, ← nil_append part.name.toList, last,
      getLast?_append]
    intro dot
    cases ends : part.name.toList.getLast? with
    | none =>
      rw [getLast?_eq_none_iff.mp ends] at dated
      cases dated
    | some char =>
      rw [ends, Option.some_or] at dot
      exact dated_undotted dated (ends.trans dot)
  rcases from_path with rfl | dot
  · calc String.ofList ("l1/".toList ++ part.chars ++ ".parquet".toList)
        = String.ofList ("l1/".toList ++ (part.chars ++ ".parquet".toList)) :=
          congrArg String.ofList (append_assoc _ _ _)
      _ = l1PathOf part :=
          congrArg (fun chars => String.ofList ("l1/".toList ++ chars)) (l1_relpath_chars part).symm
  · exact absurd dot undotted

end KrxAlpha
