import KrxAlpha.Layout
import KrxAlpha.MarketPhases

/-! From a partition's key to its archive object and back. The journal path of a key, the archive
path made from it and the directory read back from the object's name belong to one partition, so
an archive that was verified speaks for its own journal only. -/
namespace KrxAlpha
open List

inductive MarketSession where
  | regular | krxAfter | nxtAfter | nxtPre
  deriving DecidableEq

def MarketSession.value : MarketSession → String
  | .regular => "regular"
  | .krxAfter => "krx_after"
  | .nxtAfter => "nxt_after"
  | .nxtPre => "nxt_pre"

/-- `datetime.date` -/
structure CalendarDate where
  year : Nat
  month : Nat
  day : Nat
  inYears : 1 ≤ year ∧ year ≤ 9999
  inYear : 1 ≤ month ∧ month ≤ 12
  inMonth : 1 ≤ day ∧ day ≤ daysInMonth year month

def CalendarDate.isoformat (date : CalendarDate) : List Char :=
  zeroPad 4 date.year ++ '-' :: zeroPad 2 date.month ++ '-' :: zeroPad 2 date.day

/-- A text that a path keeps as one component. -/
def IsComponent (text : String) : Prop := text ≠ "" ∧ text ≠ "." ∧ '/' ∉ text.toList

structure L0PartitionKey where
  vendor : String
  venue : MarketVenue
  session : MarketSession
  stream : String
  day : CalendarDate
  vendorPlain : IsComponent vendor
  streamPlain : stream = "" ∨ IsComponent stream

namespace L0PartitionKey

/-- The directories above the day; an empty stream has none. -/
def folders (key : L0PartitionKey) : List String :=
  [key.vendor, key.venue.value, key.session.value] ++ if key.stream = "" then [] else [key.stream]

def dayName (key : L0PartitionKey) : String := String.ofList ("dt=".toList ++ key.day.isoformat)

end L0PartitionKey

/-! ### Dates -/

namespace CalendarDate

variable (date : CalendarDate)

theorem days_in_month_le (year month : Nat) : daysInMonth year month ≤ 31 := by
  unfold daysInMonth
  split_ifs <;> decide

theorem year_length : (zeroPad 4 date.year).length = 4 :=
  zero_pad_length (by decide) (by have := date.inYears; omega)

theorem month_length : (zeroPad 2 date.month).length = 2 :=
  zero_pad_length (by decide) (by have := date.inYear; omega)

theorem day_length : (zeroPad 2 date.day).length = 2 :=
  zero_pad_length (by decide) (by
    have := date.inMonth
    have := days_in_month_le date.year date.month
    omega)

/-- The three numbers of the text, by their places. -/
theorem isoformat_parts : date.isoformat.take 4 = zeroPad 4 date.year ∧
    (date.isoformat.drop 5).take 2 = zeroPad 2 date.month ∧ date.isoformat.drop 8 = zeroPad 2 date.day := by
  have year := date.year_length
  have month := date.month_length
  unfold isoformat
  generalize zeroPad 4 date.year = first at year ⊢
  generalize zeroPad 2 date.month = second at month ⊢
  obtain ⟨a, b, c, d, rfl⟩ := length_eq_four.mp year
  obtain ⟨e, f, rfl⟩ := length_eq_two.mp month
  simp

theorem isoformat_length : date.isoformat.length = 10 := by
  simp [isoformat, date.year_length, date.month_length, date.day_length]

theorem iso_shape_isoformat : isoShape date.isoformat = true := by
  have digits : ∀ char ∈ zeroPad 4 date.year ++ zeroPad 2 date.month ++ zeroPad 2 date.day,
      char.isDigit = true := by
    intro char member
    rcases mem_append.mp member with front | day
    · exact (mem_append.mp front).elim zero_pad_digits zero_pad_digits
    · exact zero_pad_digits day
  have year := date.year_length
  have month := date.month_length
  have day := date.day_length
  unfold isoformat
  generalize zeroPad 4 date.year = first at year digits ⊢
  generalize zeroPad 2 date.month = second at month digits ⊢
  generalize zeroPad 2 date.day = third at day digits ⊢
  obtain ⟨a, b, c, d, rfl⟩ := length_eq_four.mp year
  obtain ⟨e, f, rfl⟩ := length_eq_two.mp month
  obtain ⟨g, h, rfl⟩ := length_eq_two.mp day
  exact all_eq_true.mpr digits

theorem date_of_isoformat :
    dateOfIso date.isoformat = .ok (toOrdinal date.year date.month date.day) := by
  obtain ⟨year, month, day⟩ := date.isoformat_parts
  have inYears := date.inYears
  have inYear := date.inYear
  have inMonth := date.inMonth
  simp only [dateOfIso, year, month, day, of_digits_zero_pad]
  rw [if_neg (by omega), if_neg (by omega), if_neg (by omega)]

theorem isoformat_injective {first second : CalendarDate} (same : first.isoformat = second.isoformat) :
    first = second := by
  obtain ⟨year, month, day⟩ := first.isoformat_parts
  obtain ⟨year', month', day'⟩ := second.isoformat_parts
  rw [same] at year month day
  have years := of_digits_zero_pad 4 first.year
  have months := of_digits_zero_pad 2 first.month
  have days := of_digits_zero_pad 2 first.day
  rw [← year, year', of_digits_zero_pad] at years
  rw [← month, month', of_digits_zero_pad] at months
  rw [← day, day', of_digits_zero_pad] at days
  cases first
  cases second
  simp_all

theorem dated_head_isoformat (tail : List Char) :
    datedHead ("dt=".toList ++ date.isoformat ++ tail) = some (date.isoformat, tail) := by
  have lead : "dt=".toList.isPrefixOf? ("dt=".toList ++ date.isoformat ++ tail) =
      some (date.isoformat ++ tail) :=
    isPrefixOf?_eq_some_iff_append_eq.mpr (append_assoc _ _ _).symm
  have front : (date.isoformat ++ tail).take 10 = date.isoformat := take_left' date.isoformat_length
  have back : (date.isoformat ++ tail).drop 10 = tail := drop_left' date.isoformat_length
  simp only [datedHead, lead, front, back, date.iso_shape_isoformat, if_true]

theorem slash_not_mem_isoformat : '/' ∉ date.isoformat := by
  intro member
  simp only [isoformat, mem_append, mem_cons] at member
  rcases member with (year | dash | month) | dash | day
  · exact absurd (zero_pad_digits year) (by decide)
  · exact absurd dash (by decide)
  · exact absurd (zero_pad_digits month) (by decide)
  · exact absurd dash (by decide)
  · exact absurd (zero_pad_digits day) (by decide)

end CalendarDate

/-! ### Paths -/

namespace L0PartitionKey

variable (key : L0PartitionKey)

theorem folders_plain : ∀ folder ∈ key.folders, folder ≠ "" ∧ '/' ∉ folder.toList := by
  intro folder member
  rcases mem_append.mp member with fixed | stream
  · simp only [mem_cons, not_mem_nil, or_false] at fixed
    rcases fixed with rfl | rfl | rfl
    · exact ⟨key.vendorPlain.1, key.vendorPlain.2.2⟩
    · cases key.venue <;> decide
    · cases key.session <;> decide
  · split_ifs at stream with empty
    · cases stream
    · obtain rfl := mem_singleton.mp stream
      exact key.streamPlain.elim (absurd · empty) fun plain => ⟨plain.1, plain.2.2⟩

theorem day_name_plain : key.dayName ≠ "" ∧ '/' ∉ key.dayName.toList := by
  refine ⟨fun empty => ?_, ?_⟩
  · have := congrArg String.toList empty
    simp [dayName] at this
  · simpa [dayName] using key.day.slash_not_mem_isoformat

end L0PartitionKey

/-- `vendor/venue/session/stream/dt=YYYY-MM-DD` -/
def l0PartitionRelpath (key : L0PartitionKey) : RelPath where
  parts := key.folders ++ [key.dayName]
  nonempty := by simp
  plain := fun part member => (mem_append.mp member).elim (key.folders_plain part) fun last =>
    mem_singleton.mp last ▸ key.day_name_plain

theorem intercalate_concat (front : List (List Char)) (started : front ≠ []) (last : List Char) :
    ['/'].intercalate (front ++ [last]) = ['/'].intercalate front ++ '/' :: last := by
  induction front with
  | nil => exact absurd rfl started
  | cons first rest ih =>
    cases rest with
    | nil => simp [intercalate]
    | cons second others =>
      simp only [cons_append, intercalate_cons_cons] at ih ⊢
      rw [ih (cons_ne_nil _ _)]
      simp

private theorem other_chars {text : List Char} (plain : '/' ∉ text) : ∀ char ∈ text, (char != '/') = true := by
  intro char member
  rw [bne_iff_ne]
  rintro rfl
  exact plain member

theorem last_slash (plain : '/' ∉ name) :
    beforeLastSlash (front ++ '/' :: name) = front ∧ afterLastSlash (front ++ '/' :: name) = name := by
  have other := other_chars (mt mem_reverse.mp plain)
  have turned : (front ++ '/' :: name).reverse = name.reverse ++ '/' :: front.reverse := by simp
  constructor
  · rw [beforeLastSlash, turned, dropWhile_append_of_pos other]
    simp
  · rw [afterLastSlash, turned, takeWhile_append_of_pos other]
    simp

theorem first_slash (plain : '/' ∉ vendor) :
    (vendor ++ '/' :: behind).takeWhile (· != '/') = vendor := by
  rw [takeWhile_append_of_pos (other_chars plain)]
  simp

theorem unreserved (known : '/' ∉ root) (plain : '/' ∉ vendor) (different : vendor ≠ root) :
    ¬ (vendor ++ '/' :: behind = root ∨ (root ++ ['/']).isPrefixOf (vendor ++ '/' :: behind)) := by
  rintro (whole | lead)
  · exact known (whole ▸ by simp)
  · obtain ⟨others, same⟩ := isPrefixOf_iff_prefix.mp lead
    have heads := congrArg (takeWhile (· != '/')) same
    rw [append_assoc, cons_append, first_slash known, first_slash plain] at heads
    exact different heads.symm

/-- An object whose path begins with no reserved directory belongs to the partition it is named
after. -/
theorem l0_partition_for_l1_dated (date : CalendarDate) (plain : '/' ∉ vendor)
    (reserved : vendor ≠ "snapshot".toList ∧ vendor ≠ "derived".toList) (inner : List Char) :
    l0PartitionForL1 (String.ofList ("l1/".toList ++ ((vendor ++ '/' :: inner) ++
        '/' :: ("dt=".toList ++ date.isoformat ++ ".parquet".toList)))) =
      some (String.ofList ("l0/".toList ++ ((vendor ++ '/' :: inner) ++
        '/' :: ("dt=".toList ++ date.isoformat)))) := by
  have dated := date.dated_head_isoformat ".parquet".toList
  have trimmed : ("dt=".toList ++ date.isoformat ++ ".parquet".toList).take
      (("dt=".toList ++ date.isoformat ++ ".parquet".toList).length - ".parquet".toList.length) =
        "dt=".toList ++ date.isoformat := by simp
  have slashless : '/' ∉ "dt=".toList ++ date.isoformat ++ ".parquet".toList := by
    simpa using date.slash_not_mem_isoformat
  generalize "dt=".toList ++ date.isoformat ++ ".parquet".toList = name at dated trimmed slashless ⊢
  obtain ⟨before, after⟩ := @last_slash _ (vendor ++ '/' :: inner) slashless
  have regrouped : vendor ++ '/' :: inner ++ '/' :: name = vendor ++ '/' :: (inner ++ '/' :: name) := by
    simp
  have lead : "l1/".toList.isPrefixOf? (String.ofList ("l1/".toList ++ (vendor ++ '/' :: inner ++
      '/' :: name))).toList = some (vendor ++ '/' :: inner ++ '/' :: name) :=
    isPrefixOf?_eq_some_iff_append_eq.mpr (String.toList_ofList).symm
  unfold l0PartitionForL1
  simp only [lead, before, after, dated, date.date_of_isoformat, trimmed]
  rw [if_neg (regrouped ▸ unreserved (by decide) plain reserved.1),
    if_neg (regrouped ▸ unreserved (by decide) plain reserved.2), if_neg (by simp), if_neg (by simp)]
  exact if_pos ⟨.inl trivial, rfl⟩

theorem relpath_chars (key : L0PartitionKey) :
    ∃ inner, (l0PartitionRelpath key).chars =
      (key.vendor.toList ++ '/' :: inner) ++ '/' :: ("dt=".toList ++ key.day.isoformat) := by
  have whole := intercalate_concat (key.folders.map String.toList) (by simp [L0PartitionKey.folders])
    key.dayName.toList
  refine ⟨['/'].intercalate (key.folders.tail.map String.toList), ?_⟩
  simp only [l0PartitionRelpath, RelPath.chars, map_append, map_cons, map_nil, whole]
  simp [L0PartitionKey.folders, L0PartitionKey.dayName, intercalate_cons_cons]

/-- Keys with one journal path are one key: the stream is there if the path has a fifth component. -/
theorem l0_partition_relpath_injective {first second : L0PartitionKey}
    (same : l0PartitionRelpath first = l0PartitionRelpath second) : first = second := by
  obtain ⟨folders, days⟩ := append_inj' (congrArg RelPath.parts same) rfl
  have day : first.day = second.day :=
    CalendarDate.isoformat_injective (append_cancel_left (String.ofList_inj.mp (cons.inj days).1))
  simp only [L0PartitionKey.folders, cons_append, nil_append, cons.injEq] at folders
  obtain ⟨vendor, venue, session, streams⟩ := folders
  have venue : first.venue = second.venue := by
    cases one : first.venue <;> cases two : second.venue <;> simp_all [MarketVenue.value]
  have session : first.session = second.session := by
    cases one : first.session <;> cases two : second.session <;> simp_all [MarketSession.value]
  have stream : first.stream = second.stream := by
    split_ifs at streams with none other other
    · rw [none, other]
    · exact (cons.inj streams).1
  cases first
  cases second
  simp_all

/-- The object of a partition leads back to the partition's own directory; partitions of different
keys have different objects, and no other object leads to that directory. -/
theorem l1_path_invertible (key : L0PartitionKey)
    (reserved : key.vendor ≠ "snapshot" ∧ key.vendor ≠ "derived") :
    l0PartitionForL1 (l1PathOf (l0PartitionRelpath key)) = some (l0RepoDir (l0PartitionRelpath key)) ∧
    (∀ other, l1PathOf (l0PartitionRelpath other) = l1PathOf (l0PartitionRelpath key) → other = key) ∧
    ∀ path, l0PartitionForL1 path = some (l0RepoDir (l0PartitionRelpath key)) →
      path = l1PathOf (l0PartitionRelpath key) := by
  have dated := key.day.dated_head_isoformat []
  rw [append_nil] at dated
  have named : (l0PartitionRelpath key).name.toList = "dt=".toList ++ key.day.isoformat := by
    simp [RelPath.name, l0PartitionRelpath, L0PartitionKey.dayName]
  refine ⟨?_, fun other same => ?_, fun path => l0_partition_for_l1_own (named ▸ dated)⟩
  · obtain ⟨inner, chars⟩ := relpath_chars key
    have back := l0_partition_for_l1_dated key.day key.vendorPlain.2.2
      ⟨mt String.toList_inj.mp reserved.1, mt String.toList_inj.mp reserved.2⟩ inner
    rw [l1PathOf, l1RepoPath, l1_relpath_chars, l0RepoDir, chars]
    simpa using back
  · exact l0_partition_relpath_injective (l1_relpath_injective (l1_repo_path_injective same))

/-- A key without a stream. -/
theorem streamless_path_invertible :
    let key : L0PartitionKey := ⟨"db", .krx, .regular, "", ⟨2024, 2, 29, by decide, by decide, by decide⟩,
      by simp [IsComponent], .inl rfl⟩
    l0PartitionForL1 (l1PathOf (l0PartitionRelpath key)) = some (l0RepoDir (l0PartitionRelpath key)) :=
  (l1_path_invertible _ (by decide)).1

end KrxAlpha
