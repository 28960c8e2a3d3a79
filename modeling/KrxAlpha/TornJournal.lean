import KrxAlpha.JournalFile

/-! A journal file cut at any byte. Every line but the last is a whole record, and the last is
one too, or a first part of one, which no reader takes for a record: it ends inside a character
or before the closing brace. -/
namespace KrxAlpha.JournalFile
open List
open JsonText LineBytes

/-! ### Lines -/

theorem record_line_eq (record : Fields) : recordLine record = recordText record ++ [10] :=
  encode_append _ _

theorem record_text_visible (record : Fields) : ∀ byte ∈ recordText record, 32 ≤ byte.toNat :=
  fun _ listed => encoded_bytes (dumps_printable _) listed

theorem record_text_brace (record : Fields) : ∃ rest, recordText record = 123 :: rest :=
  ⟨_, rfl⟩

theorem part_not_blank (some_ : part ≠ [])
    (split : recordText record = part ++ rest) : isBlank part = false := by
  obtain ⟨tail, brace⟩ := record_text_brace record
  cases part with
  | nil => exact absurd rfl some_
  | cons byte part =>
    rw [brace] at split
    obtain ⟨rfl, -⟩ := cons.inj split
    rfl

theorem parsed_record (record : Fields) :
    parsedLine (recordText record) = some (.object (reloaded record)) := by
  unfold parsedLine recordText
  rw [decode_encode, Option.bind_some, loads_dumps]
  rfl

/-- A text cut inside a character does not decode; one cut between two lacks its brace. -/
theorem parsed_part (cut : rest ≠ [])
    (split : recordText record = part ++ rest) : parsedLine part = none := by
  unfold parsedLine
  cases read : decode part with
  | none => rfl
  | some text =>
    obtain ⟨more, whole, left⟩ := decode_part split read
    have behind : more ≠ [] := by
      rintro rfl
      exact cut left.symm
    exact loads_cut record behind whole

theorem torn_behind (front back : List UInt8) : isTorn (front ++ 10 :: back) = isTorn back := by
  cases back with
  | nil => simp [isTorn]
  | cons byte back => simp [isTorn, getLast?_append, getLast?_cons_cons]

theorem torn_part (some_ : part ≠ [])
    (split : recordText record = part ++ rest) : isTorn part = true := by
  have last : part.getLast? ≠ some 10 := by
    intro newline
    have listed : (10 : UInt8) ∈ recordText record := by
      rw [split]
      exact mem_append_left _ (mem_of_getLast? newline)
    exact absurd (record_text_visible record 10 listed) (by decide)
  simp [isTorn, some_, last]

theorem mark_marked {journal : OrderJournal} (marked : day ∈ journal.tornDays) :
    journal.markTorn day = journal := if_pos marked

/-! ### The reader on a cut file -/

theorem whole_records_zero (records : List Fields) : wholeRecords 0 records = [] := by
  cases records with
  | nil => rfl
  | cons record rest =>
    obtain ⟨tail, brace⟩ := record_text_brace record
    rw [wholeRecords, if_neg (by simp [brace])]

theorem read_whole_line (record : Fields) (rest : List (List UInt8))
    (journal after : OrderJournal) {read : List Fields}
    (later : readLines day last (idx + 1) rest journal =
      (.ok (read.filter (ofMode journal.mode)), after)) :
    readLines day last idx (recordText record :: rest) journal =
      (.ok ((reloaded record :: read).filter (ofMode journal.mode)), after) := by
  obtain ⟨tail, brace⟩ := record_text_brace record
  have visible : isBlank (recordText record) = false :=
    part_not_blank (by simp [brace]) (append_nil _).symm
  simp only [readLines, visible, parsed_record, later, filter_cons]
  cases ofMode journal.mode (reloaded record) <;> rfl

/-- A last line that is only a part of a record adds nothing where the day is marked. -/
theorem read_part_line
    (some_ : part ≠ []) (cut : rest ≠ []) (split : recordText record = part ++ rest)
    (marked : day ∈ journal.tornDays) :
    readLines day last last [part] journal = (.ok [], journal) := by
  simp only [readLines, part_not_blank some_ split, parsed_part cut split, mark_marked marked]
  rfl

/-- Where the cut goes through a file that begins with a record's line. -/
theorem cut_cases (record : Fields) (behind : List UInt8) (size : Nat) :
    (size < (recordText record).length ∧
      (recordText record ++ 10 :: behind).take size = (recordText record).take size) ∨
    (size = (recordText record).length ∧
      (recordText record ++ 10 :: behind).take size = recordText record) ∨
    ((recordText record).length < size ∧
      (recordText record ++ 10 :: behind).take size =
        recordText record ++ 10 :: behind.take (size - ((recordText record).length + 1))) := by
  rcases Nat.lt_trichotomy size (recordText record).length with short | same | long
  · exact .inl ⟨short, take_append_of_le_length (by omega)⟩
  · exact .inr (.inl ⟨same, take_left' same.symm⟩)
  · refine .inr (.inr ⟨long, ?_⟩)
    rw [take_append, take_of_length_le (by omega),
      show size - (recordText record).length = size - ((recordText record).length + 1) + 1 by omega,
      take_succ_cons]

/-- The loop over the lines of a cut file keeps the whole records. A torn end has been noticed
before the loop, and marks nothing new in it. -/
theorem read_lines_cut (records : List Fields) (size idx : Nat) (journal : OrderJournal)
    (marked : isTorn ((records.flatMap recordLine).take size) = true → day ∈ journal.tornDays)
    (count : splitLines ((records.flatMap recordLine).take size) ≠ [] →
      idx + (splitLines ((records.flatMap recordLine).take size)).length = last + 1) :
    readLines day last idx (splitLines ((records.flatMap recordLine).take size)) journal =
      (.ok (((wholeRecords size records).map reloaded).filter (ofMode journal.mode)), journal) := by
  induction records generalizing size idx with
  | nil => simp [splitLines, linesFrom, readLines, wholeRecords]
  | cons record rest ih =>
    have content : (record :: rest).flatMap recordLine =
        recordText record ++ 10 :: rest.flatMap recordLine := by
      rw [flatMap_cons, record_line_eq, append_assoc]
      rfl
    rw [content] at marked count ⊢
    rcases cut_cases record (rest.flatMap recordLine) size with ⟨short, cut⟩ | ⟨same, cut⟩ |
      ⟨long, cut⟩ <;> rw [cut] at marked count ⊢ <;> rw [wholeRecords]
    · rw [if_neg (by omega)]
      have split := (take_append_drop size (recordText record)).symm
      by_cases none_ : (recordText record).take size = []
      · rw [none_]
        rfl
      · have behind : (recordText record).drop size ≠ [] := by
          rw [Ne, drop_eq_nil_iff]
          omega
        have visible : ∀ byte ∈ (recordText record).take size, 32 ≤ byte.toNat :=
          fun byte listed => record_text_visible record byte (mem_of_mem_take listed)
        rw [split_lines_single visible none_] at count ⊢
        have here : idx = last := by simpa using count (cons_ne_nil _ _)
        rw [here]
        exact read_part_line none_ behind split (marked (torn_part none_ split))
    · -- Only the newline is missing.
      obtain ⟨tail, brace⟩ := record_text_brace record
      rw [split_lines_single (record_text_visible record) (by simp [brace]), if_pos (by omega),
        show size - ((recordText record).length + 1) = 0 by omega, whole_records_zero]
      exact read_whole_line record [] journal journal rfl
    · rw [split_lines_cons (record_text_visible record)] at count ⊢
      rw [torn_behind] at marked
      rw [if_pos (by omega)]
      refine read_whole_line record _ journal journal (ih _ (idx + 1) marked ?_)
      intro _
      have := count (cons_ne_nil _ _)
      rw [length_cons] at this
      omega

/-! ### What appends write -/

section Appends

variable (lower : List Char → List Char)

/-- Appends put the lines of each day's records behind what the day's file held. -/
theorem append_all_bytes (written : appendAll lower before entries = .ok later) (day : Int) :
    fileBytes later day =
      fileBytes before day ++ (dayRecords lower entries day).flatMap recordLine := by
  induction entries generalizing before with
  | nil =>
    cases written
    simp [dayRecords]
  | cons entry rest ih =>
    rw [appendAll, append] at written
    split at written
    · cases written
    · rw [ih written, fileBytes, Dict.get?_set]
      by_cases same : dayOf entry.ts = day
      · simp [dayRecords, fileBytes, same]
      · simp [dayRecords, fileBytes, same, Ne.symm same]

theorem distinct_fields_iff (fields : Fields) :
    DistinctFields fields ↔ ∀ field ∈ fields, Distinct field.2 := by
  induction fields with
  | nil => simp [DistinctFields]
  | cons field rest ih => simp [DistinctFields, ih]

theorem redact_fields_names (fields : Fields) :
    (redactFields lower fields).map Prod.fst = fields.map Prod.fst := by
  induction fields with
  | nil => rfl
  | cons field rest ih => simp [redactFields, ih]

mutual

theorem redact_distinct : ∀ value : Value, Distinct value → Distinct (redact lower value)
  | .null, _ => trivial
  | .bool _, _ => trivial
  | .int _, _ => trivial
  | .float _, _ => trivial
  | .string _, _ => trivial
  | .array items, distinct => redact_items_distinct items distinct
  | .object fields, distinct => by
    refine ⟨?_, redact_fields_distinct fields distinct.2⟩
    rw [redact_fields_names]
    exact distinct.1

theorem redact_items_distinct : ∀ items : List Value, DistinctItems items →
    DistinctItems (redactItems lower items)
  | [], _ => trivial
  | item :: rest, distinct =>
    ⟨redact_distinct item distinct.1, redact_items_distinct rest distinct.2⟩

theorem redact_fields_distinct : ∀ fields : Fields, DistinctFields fields →
    DistinctFields (redactFields lower fields)
  | [], _ => trivial
  | (key, value) :: rest, distinct => by
    refine ⟨?_, redact_fields_distinct rest distinct.2⟩
    split
    · trivial
    · exact redact_distinct value distinct.1

end

theorem record_reloaded {entry : Entry} (distinct : ∀ field ∈ entry.fields, Distinct field.2) :
    reloaded (entry.record lower) = entry.record lower := by
  have fields : DistinctFields (entry.record lower) := by
    rw [distinct_fields_iff]
    rintro ⟨name, value⟩ listed
    have given := Dict.mem_of_ofList (Dict.mem_entries_iff.mp listed)
    rcases mem_append.mp given with fixed | converted
    · simp only [mem_cons, not_mem_nil, or_false] at fixed
      rcases fixed with same | same | same <;> (cases same; trivial)
    · obtain ⟨held, within, same⟩ := mem_map.mp converted
      cases same
      exact redact_distinct lower held.2 (distinct held within)
  have names : ((entry.record lower).map Prod.fst).Nodup := Dict.keys_nodup _
  unfold reloaded
  rw [loaded_fields_distinct _ fields, Dict.entries_ofList names]

end Appends

/-! ### Cut files -/

theorem cut_bytes (files : Files) (day : Int) (size : Nat) :
    fileBytes (cutAt files day size) day = (fileBytes files day).take size := by
  unfold cutAt fileBytes
  cases held : files.get? day with
  | none => simp [held]
  | some raw => simp

/-- A missing file is read as an empty one. -/
theorem read_day_bytes (reader : OrderJournal) (files : Files) (day : Int) :
    reader.readDay files day =
      readLines day ((splitLines (fileBytes files day)).length - 1) 0
        (splitLines (fileBytes files day))
        (if isTorn (fileBytes files day) then reader.markTorn day else reader) := by
  unfold OrderJournal.readDay fileBytes
  cases files.get? day <;> rfl

theorem mark_torn_iff {journal : OrderJournal} (clean : day ∉ journal.tornDays) (torn : Bool) :
    day ∈ (if torn then journal.markTorn day else journal).tornDays ↔ torn = true := by
  cases torn with
  | false => simpa using clean
  | true => simp [OrderJournal.markTorn, clean]

theorem append_refused_iff (lower : List Char → List Char) (files : Files) (entry : Entry) :
    (∃ message, append lower files entry = .error message) ↔
      dayOf entry.ts ∈ entry.journal.tornDays := by
  simp only [append]
  split
  · rename_i torn
    simp [torn]
  · rename_i whole
    simp [whole]

theorem torn_iff (raw : List UInt8) : isTorn raw = true ↔ raw ≠ [] ∧ raw.getLast? ≠ some 10 := by
  simp [isTorn]

theorem whole_records_mem (listed : record ∈ wholeRecords size records) : record ∈ records := by
  induction records generalizing size with
  | nil => cases listed
  | cons first rest ih =>
    rw [wholeRecords] at listed
    split at listed
    · rcases mem_cons.mp listed with rfl | later
      · exact mem_cons_self
      · exact mem_cons_of_mem _ (ih later)
    · cases listed

theorem whole_records_reloaded {lower : List Char → List Char}
    (distinct : ∀ entry ∈ entries, ∀ field ∈ entry.fields, Distinct field.2) (day : Int)
    (size : Nat) :
    (wholeRecords size (dayRecords lower entries day)).map reloaded =
      wholeRecords size (dayRecords lower entries day) := by
  refine (map_congr_left fun record listed => ?_).trans (map_id _)
  obtain ⟨entry, within, rfl⟩ := mem_map.mp (whole_records_mem listed)
  exact record_reloaded lower (distinct entry (mem_of_mem_filter within))

/-- Appends of any modes, to any days, in any order, and then one day's file cut at any byte.
The reader returns the day's whole records of its own mode, in order, as JSON reads them back,
which is as they were written unless an object names a field twice. It marks the day torn, and
its appends on that day are refused, exactly when something is left and does not end with a
newline. -/
theorem torn_journal_read (lower : List Char → List Char) (entries : List Entry) {files : Files}
    (written : appendAll lower ∅ entries = .ok files) (day : Int) (size : Nat)
    (reader : OrderJournal) (clean : day ∉ reader.tornDays) :
    ∃ after,
      reader.readDay (cutAt files day size) day =
        (.ok (((wholeRecords size (dayRecords lower entries day)).map reloaded).filter
          (ofMode reader.mode)), after) ∧
      ((∀ entry ∈ entries, ∀ field ∈ entry.fields, Distinct field.2) →
        (wholeRecords size (dayRecords lower entries day)).map reloaded =
          wholeRecords size (dayRecords lower entries day)) ∧
      (day ∈ after.tornDays ↔ fileBytes (cutAt files day size) day ≠ [] ∧
        (fileBytes (cutAt files day size) day).getLast? ≠ some 10) ∧
      ∀ entry : Entry, entry.journal = after → dayOf entry.ts = day →
        ((∃ message, append lower (cutAt files day size) entry = .error message) ↔
          fileBytes (cutAt files day size) day ≠ [] ∧
            (fileBytes (cutAt files day size) day).getLast? ≠ some 10) := by
  have content : fileBytes files day = (dayRecords lower entries day).flatMap recordLine := by
    rw [append_all_bytes lower written day]
    rfl
  have cut : fileBytes (cutAt files day size) day =
      ((dayRecords lower entries day).flatMap recordLine).take size := by
    rw [cut_bytes, content]
  rw [read_day_bytes, ← torn_iff]
  have marked := mark_torn_iff clean (isTorn (fileBytes (cutAt files day size) day))
  generalize journal : (if isTorn (fileBytes (cutAt files day size) day) = true
    then reader.markTorn day else reader) = after at marked ⊢
  have mode : after.mode = reader.mode := by
    rw [← journal]
    unfold OrderJournal.markTorn
    split_ifs <;> rfl
  refine ⟨after, ?_, fun distinct => whole_records_reloaded distinct day size, marked, ?_⟩
  · rw [cut] at marked ⊢
    rw [← mode]
    refine read_lines_cut _ size 0 after marked.mpr fun some_ => ?_
    have := length_pos_of_ne_nil some_
    omega
  · rintro entry rfl rfl
    exact (append_refused_iff lower _ entry).trans marked

/-- Two paper records with a live one between them. -/
def Sample.noted : List Entry :=
  [⟨⟨.paper, []⟩, 0, "note".toList, [("text".toList, .string "돌파".toList)]⟩,
    ⟨⟨.live, []⟩, 1000000, "note".toList, []⟩,
    ⟨⟨.paper, []⟩, 2000000, "note".toList, [("text".toList, .string "이탈".toList)]⟩]

/-- The cut goes through the first character of the last text. -/
theorem torn_journal_read_noted :
    ∃ files after, appendAll (map Char.toLower) ∅ Sample.noted = .ok files ∧
      (OrderJournal.mk .paper []).readDay (cutAt files 0 237) 0 =
        (.ok [[("ts".toList, .string "1970-01-01T00:00:00+09:00".toList),
          ("mode".toList, .string "paper".toList), ("event".toList, .string "note".toList),
          ("text".toList, .string "돌파".toList)]], after) ∧ 0 ∈ after.tornDays := by
  obtain ⟨after, read, -, torn, -⟩ := torn_journal_read (map Char.toLower) Sample.noted rfl
    0 237 ⟨.paper, []⟩ (by decide)
  refine ⟨_, after, rfl, ?_, torn.mpr (by decide +kernel)⟩
  rw [read]
  rfl

end KrxAlpha.JournalFile
